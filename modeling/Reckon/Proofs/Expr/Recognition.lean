/- Reckon.Proofs.Expr.Recognition — the parser reads exactly the grammar

Whatever the parser reads off the front of a lexeme list is derived by the
grammar (`Sound`), one lemma for each parser and an induction on the room that
is left for nesting.  With completeness this makes the parser and the grammar
one relation on whole lexeme lists (`ofLexemes_eq_ok_iff`), and since a parser
has one answer, a lexeme list has one tree.
-/
import Reckon.Proofs.Expr.Completeness

namespace Reckon.Expr
set_option autoImplicit false

/-! ## Soundness -/

/-- Whatever the parser reads is derived in the category. -/
def Sound (room : Nat) (category : Category) (parser : Parser Expr) : Prop :=
  ∀ {input rest : List Placed} {tree : Expr}, Reads parser input tree rest →
    ∃ lexemes, input = lexemes ++ rest ∧ Derives room category lexemes tree

section Sound
variable {room : Nat}

theorem chainFrom_sound {category next : Category} {operand : Parser Expr}
    (follows : category.next? = some next) (above : category.height = next.height + 1)
    (sound : Sound room next operand) {start : List Placed} {input rest : Shorter start}
    {before : List Placed} {tree result : Expr} (derived : Derives room category before tree)
    (read : chainFrom (fun op => op.level == next.height) operand tree input
      = .ok (result, rest)) :
    ∃ lexemes, input.val = lexemes ++ rest.val ∧
      Derives room category (before ++ lexemes) result := by
  fun_induction chainFrom (fun op => op.level == next.height) operand tree input generalizing before with
  | case1 tree shorter =>
    cases read
    exact ⟨[], rfl, by simpa using derived⟩
  | case2 tree placed rest shorter stopped =>
      cases read
      exact ⟨[], rfl, by simpa using derived⟩
  | case3 => cases read
  | case4 tree placed rest shorter op accepted right rest' shorter' took ih =>
      obtain ⟨written, level⟩ := Option.filter_eq_some_iff.mp accepted
      obtain ⟨after, rfl, rightSide⟩ := sound ⟨shorter', took⟩
      obtain ⟨symbol, shown⟩ : ∃ symbol, placed.lexeme = .symbol symbol := by
        cases kind : placed.lexeme <;> simp [Lexeme.binary?, kind] at written ⊢
      have spelled : BinaryOp.ofSymbol? symbol = some op := by
        rw [shown] at written
        exact written
      have member : symbol ∈ category.symbols := by
        rw [← BinaryOp.symbol_of_ofSymbol? spelled]
        exact Category.mem_symbols_of_level follows above (by simpa using level)
      have extended : Derives room category (before ++ placed :: after)
          (.binary tree op right placed.position) := by
        have joined := Derives.binary placed.position follows member spelled derived rightSide
        rwa [← shown] at joined
      obtain ⟨lexemes, same, whole⟩ := ih extended read
      exact ⟨placed :: (after ++ lexemes), by simpa using same, by simpa using whole⟩

/-- A level is sound if its operands are. -/
theorem sound_chain {category next : Category} {operand : Parser Expr}
    (follows : category.next? = some next) (above : category.height = next.height + 1)
    (sound : Sound room next operand) :
    Sound room category (chain (fun op => op.level == next.height) operand) := by
  rintro input rest tree ⟨shorter, read⟩
  unfold chain at read
  split at read
  · cases read
  · rename_i first after took
    obtain ⟨before, whole, derived⟩ := sound ⟨after.property, took⟩
    obtain ⟨lexemes, remaining, chained⟩ :=
      chainFrom_sound follows above sound (.tighter follows derived) read
    exact ⟨before ++ lexemes, by rw [whole, remaining, List.append_assoc], chained⟩

theorem sound_expression {parser : Parser Expr} (sound : Sound room .unary parser) :
    Sound room .or (expression parser) :=
  have exponent : Sound room .exponent (ladder parser 1) := sound_chain rfl rfl sound
  have multiplicative : Sound room .multiplicative (ladder parser 2) :=
    sound_chain rfl rfl exponent
  have additive : Sound room .additive (ladder parser 3) := sound_chain rfl rfl multiplicative
  have comparison : Sound room .comparison (ladder parser 4) := sound_chain rfl rfl additive
  have and : Sound room .and (ladder parser 5) := sound_chain rfl rfl comparison
  sound_chain rfl rfl and

theorem skipArguments_sound {parser : Parser Expr} (sound : Sound room .or parser)
    {start : List Placed} {input rest : Shorter start}
    (read : skipArguments parser input = .ok rest) :
    ∃ arguments lexemes closing,
      input.val = lexemes ++ ⟨.symbol .rightParen, closing⟩ :: rest.val ∧ arguments ≠ [] ∧
      (∀ argument ∈ arguments, Derives room .or argument.1 argument.2) ∧
      CommaSeparated (arguments.map Prod.fst) lexemes := by
  fun_induction skipArguments parser input with
  | case1 => cases read
  | case2 => cases read
  | case3 input tree placed after shorter took within comma ih =>
      obtain ⟨lexeme, position⟩ := placed
      cases comma
      obtain ⟨item, whole, derived⟩ := sound ⟨shorter, took⟩
      obtain ⟨others, lexemes, closing, remaining, some, each, separated⟩ := ih read
      obtain ⟨next, others, rfl⟩ := List.exists_cons_of_ne_nil some
      refine ⟨(item, tree) :: next :: others, item ++ ⟨.symbol .comma, position⟩ :: lexemes,
        closing, ?_, List.cons_ne_nil _ _, ?_, .more item next.1 position separated⟩
      · rw [whole, show after = _ from remaining]
        simp
      · exact List.forall_mem_cons.mpr ⟨derived, each⟩
  | case4 input tree placed after shorter took within notComma closes =>
      obtain ⟨lexeme, closing⟩ := placed
      cases closes
      cases read
      obtain ⟨item, whole, derived⟩ := sound ⟨shorter, took⟩
      exact ⟨[(item, tree)], item, closing, whole, List.cons_ne_nil _ _,
        by simpa using derived, .last item⟩
  | case5 => cases read

/-- The parser of the nested parts is sound with one level of nesting less. -/
def SoundBelow (room : Nat) (deeper : Option (Parser Expr)) : Prop :=
  ∀ parser ∈ deeper, ∃ less, room = less + 1 ∧ Sound less .unary parser

section Nested
variable {deeper : Option (Parser Expr)} {start : List Placed} {input rest : Shorter start}

theorem callRest_sound (below : SoundBelow room deeper) {opening : Nat}
    (read : callRest deeper opening input = .ok rest) (callee : String) (position : Nat) :
    ∃ lexemes, input.val = lexemes ++ rest.val ∧
      Derives room .primary
        (⟨.name callee, position⟩ :: ⟨.symbol .leftParen, opening⟩ :: lexemes)
        (.call callee position) := by
  unfold callRest at read
  split at read
  · cases read
  · obtain ⟨less, rfl, sound⟩ := below _ rfl
    split at read
    · rename_i closing after shorter
      cases read
      exact ⟨[⟨.symbol .rightParen, closing⟩], rfl,
        .call callee [] position opening closing (by simp) .none⟩
    · obtain ⟨arguments, lexemes, closing, whole, -, each, separated⟩ :=
        skipArguments_sound (sound_expression sound) read
      exact ⟨lexemes ++ [⟨.symbol .rightParen, closing⟩], by simp [whole],
        .call callee arguments position opening closing each separated⟩

theorem groupRest_sound (below : SoundBelow room deeper) {position : Nat} {tree : Expr}
    (read : groupRest deeper position input = .ok (tree, rest)) :
    ∃ lexemes, input.val = lexemes ++ rest.val ∧
      Derives room .primary (⟨.symbol .leftParen, position⟩ :: lexemes) tree := by
  unfold groupRest at read
  split at read
  · cases read
  · obtain ⟨less, rfl, sound⟩ := below _ rfl
    split at read
    · cases read
    · cases read
    · rename_i inner placed after shorter took
      split at read
      · rename_i closes
        obtain ⟨lexeme, closing⟩ := placed
        cases closes
        cases read
        obtain ⟨lexemes, whole, derived⟩ := sound_expression sound ⟨shorter, took⟩
        exact ⟨lexemes ++ [⟨.symbol .rightParen, closing⟩], by simp [whole],
          .group position closing derived⟩
      · cases read

theorem signedRest_sound (below : SoundBelow room deeper) {symbol : Symbol} {op : PrefixOp}
    (written : PrefixOp.ofSymbol? symbol = some op) {position : Nat} {tree : Expr}
    (read : signedRest deeper op position input = .ok (tree, rest)) :
    ∃ lexemes, input.val = lexemes ++ rest.val ∧
      Derives room .unary (⟨.symbol symbol, position⟩ :: lexemes) tree := by
  unfold signedRest at read
  split at read
  · cases read
  · obtain ⟨less, rfl, sound⟩ := below _ rfl
    split at read
    · cases read
    · rename_i operand after shorter took
      cases read
      obtain ⟨lexemes, whole, derived⟩ := sound ⟨shorter, took⟩
      exact ⟨lexemes, whole, .signed position written derived⟩

theorem sound_unaryOver (below : SoundBelow room deeper) :
    Sound room .unary (unaryOver deeper) := by
  rintro input rest tree ⟨shorter, read⟩
  unfold unaryOver at read
  split at read
  · cases read
  · split at read
    · cases read
      exact ⟨_, rfl, .tighter rfl (.literal _ _ _)⟩
    · split at read
      · split at read
        · cases read
        · rename_i after called
          cases read
          obtain ⟨lexemes, whole, derived⟩ := callRest_sound below called _ _
          exact ⟨_, by simpa using whole, .tighter rfl derived⟩
      · cases read
        exact ⟨_, rfl, .tighter rfl (.name _ _)⟩
    · obtain ⟨lexemes, whole, derived⟩ := groupRest_sound below read
      exact ⟨_, by simpa using whole, .tighter rfl derived⟩
    · split at read
      · rename_i written
        obtain ⟨lexemes, whole, derived⟩ := signedRest_sound below written read
        exact ⟨_, by simpa using whole, derived⟩
      · cases read
    · cases read

end Nested

/-- **Soundness.**  What is read as a unary expression is derived as one. -/
theorem sound_unary : ∀ room, Sound room .unary (unary room)
  | 0 => sound_unaryOver fun _ member => absurd member (Option.not_mem_none _)
  | room + 1 => sound_unaryOver fun _ some => by
      cases some
      exact ⟨room, rfl, sound_unary room⟩

end Sound

/-! ## Whole lexeme lists -/

theorem ofLexemes_eq_ok_iff (lexemes : List Placed) (tree : Expr) :
    ofLexemes lexemes = .ok tree ↔ Derives maxNesting .or lexemes tree := by
  constructor
  · intro parsed
    unfold ofLexemes at parsed
    split at parsed
    · cases parsed
    · rename_i read
      cases parsed
      obtain ⟨whole, same, derived⟩ := sound_expression (sound_unary maxNesting) ⟨_, read⟩
      simpa [same] using derived
    · cases parsed
  · intro derived
    have read := (readAs_of_derives derived).reads [] trivial
    rw [List.append_nil] at read
    obtain ⟨shorter, read⟩ := read
    simp [ofLexemes, show expression (unary maxNesting) lexemes = _ from read]

theorem Derives.unique {room room' : Nat} {lexemes : List Placed} {tree tree' : Expr}
    (derived : Derives room .or lexemes tree) (derived' : Derives room' .or lexemes tree') :
    tree = tree' := by
  have read := (readAs_of_derives (derived.mono (Nat.le_max_left room room'))).reads [] trivial
  have read' := (readAs_of_derives (derived'.mono (Nat.le_max_right room room'))).reads [] trivial
  obtain ⟨shorter, read⟩ := read
  obtain ⟨shorter', read'⟩ := read'
  rw [read] at read'
  cases read'
  rfl

theorem parse_eq_ofLexemes {source : String} {lexemes : List Placed}
    (scanned : Lexeme.scan source = .ok lexemes) : parse source = ofLexemes lexemes := by
  simp [parse, scanned, bind, Except.bind]

theorem parse_of_scan_error {source : String} {fault : SourceFault}
    (failed : Lexeme.scan source = .error fault) : parse source = .error fault := by
  simp [parse, failed, bind, Except.bind]

/-- A text that is read as a tree has lexemes, and the grammar makes the tree of
them. -/
theorem derives_of_parse {source : String} {tree : Expr} (parsed : parse source = .ok tree) :
    ∃ lexemes, Lexeme.scan source = .ok lexemes ∧ Derives maxNesting .or lexemes tree := by
  cases scanned : Lexeme.scan source with
  | error fault => simp [parse, scanned, bind, Except.bind] at parsed
  | ok lexemes =>
    rw [parse_eq_ofLexemes scanned] at parsed
    exact ⟨lexemes, rfl, (ofLexemes_eq_ok_iff lexemes tree).mp parsed⟩

/-- **The parser reads exactly the grammar.**  A text is read as a tree if and
only if the grammar makes the tree of all its lexemes, nested at most 128 deep;
and however deep they are nested, lexemes have at most one tree. -/
theorem parse_eq_ok_iff_derives (source : String) {lexemes : List Placed}
    (scanned : Lexeme.scan source = .ok lexemes) :
    (∀ tree, parse source = .ok tree ↔ Derives 128 .or lexemes tree) ∧
      ∀ room room' tree tree', Derives room .or lexemes tree →
        Derives room' .or lexemes tree' → tree = tree' := by
  refine ⟨fun tree => ?_, fun _ _ _ _ => Derives.unique⟩
  rw [parse_eq_ofLexemes scanned]
  exact ofLexemes_eq_ok_iff lexemes tree

/-- A call whose only argument is signed is a factor like any other. -/
theorem derives_signed_argument :
    Lexeme.scan "f(-x)*2" = .ok
      [⟨.name "f", 0⟩, ⟨.symbol .leftParen, 1⟩, ⟨.symbol .minus, 2⟩, ⟨.name "x", 3⟩,
       ⟨.symbol .rightParen, 4⟩, ⟨.symbol .star, 5⟩, ⟨.number .integer "2", 6⟩] ∧
    Derives 128 .or
      [⟨.name "f", 0⟩, ⟨.symbol .leftParen, 1⟩, ⟨.symbol .minus, 2⟩, ⟨.name "x", 3⟩,
       ⟨.symbol .rightParen, 4⟩, ⟨.symbol .star, 5⟩, ⟨.number .integer "2", 6⟩]
      (.binary (.call "f" 0) .mul (.literal .integer "2" 6) 5) :=
  ⟨by cbv, ((parse_eq_ok_iff_derives "f(-x)*2" (by cbv)).1 _).1 (by cbv)⟩

end Reckon.Expr
