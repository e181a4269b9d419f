/- Reckon.Proofs.Lexeme.Spacing — blanks around lexemes

A run of blanks is a lexeme like any other while a text is scanned.  Which run a blank belongs to
makes no difference in the end, so one blank may be skipped at a time (`lexemesFrom_gap`).  Blanks
in front of a text then only move what is found in it, and blanks behind it do not even that
(`scan_surrounded`).

Blanks between two lexemes may change the first one, because it was read with the second one in
sight: of `1e+x` the number is an integer, and of `1e +x` it is none.  Only a number that has not
the form of its own text is changed in this way, so that where all are decimals blanks may come in
anywhere between the lexemes (`scan_spaced`).
-/
import Reckon.Proofs.Lexeme.Cuts
import Reckon.Proofs.Lexeme.Surroundings

namespace Reckon.Lexeme
set_option autoImplicit false

open Pattern

/-! ## One lexeme after the other -/

/-- What is found in a text that starts at an offset, blanks left out. -/
def lexemesFrom (position : Nat) (source : List Char) : Except SourceFault (List Placed) :=
  (scanFrom position [] source).map (List.filter fun placed => !placed.lexeme.isBlank)

theorem scan_eq_lexemesFrom (source : String) : scan source = lexemesFrom 0 source.toList := by
  unfold scan lexemesFrom
  cases scanFrom 0 [] source.toList <;> rfl

section Step
variable {c : Char} {lexeme : Lexeme} {text rest : List Char}

theorem lexemesFrom_nil (position : Nat) : lexemesFrom position [] = .ok [] := by
  simp [lexemesFrom, scanFrom, Except.map]

theorem lexemesFrom_next (first : first? (text ++ rest) = some (lexeme, text))
    (solid : lexeme.isBlank = false) (position : Nat) :
    lexemesFrom position (text ++ rest) =
      (lexemesFrom (position + text.length) rest).map (⟨lexeme, position⟩ :: ·) := by
  unfold lexemesFrom
  rw [scanFrom_next first]
  cases scanFrom (position + text.length) [] rest <;> simp [Except.map, solid]

theorem lexemesFrom_stray (missing : first? (c :: rest) = none) (position : Nat) :
    lexemesFrom position (c :: rest) =
      .error (.strayCharacter (String.singleton c) position) := by
  simp [lexemesFrom, scanFrom, missing, Except.map]

theorem first?_gap (gap : isGap c = true) (rest : List Char) :
    first? (c :: rest) = some (.blank, c :: rest.takeWhile isGap) := by
  rw [first?, if_pos gap, List.takeWhile_cons_of_pos gap]

theorem lexemesFrom_run (gap : isGap c = true) (position : Nat) (rest : List Char) :
    lexemesFrom position (c :: rest) =
      lexemesFrom (position + 1 + (rest.takeWhile isGap).length) (rest.dropWhile isGap) := by
  have whole : c :: rest = c :: rest.takeWhile isGap ++ rest.dropWhile isGap := by
    rw [List.cons_append, List.takeWhile_append_dropWhile]
  have first := first?_gap gap rest
  rw [whole] at first
  rw [whole, lexemesFrom, scanFrom_next first, List.length_cons, Nat.add_comm _ 1, ← Nat.add_assoc]
  unfold lexemesFrom
  cases scanFrom (position + 1 + (rest.takeWhile isGap).length) [] (rest.dropWhile isGap) <;> rfl

/-- A blank is skipped, whatever stands behind it. -/
theorem lexemesFrom_gap (gap : isGap c = true) (position : Nat) (rest : List Char) :
    lexemesFrom position (c :: rest) = lexemesFrom (position + 1) rest := by
  rw [lexemesFrom_run gap]
  cases rest with
  | nil => rfl
  | cons next rest =>
    cases gap' : isGap next with
    | false => simp [gap']
    | true =>
      rw [lexemesFrom_run gap', List.takeWhile_cons_of_pos gap', List.dropWhile_cons_of_pos gap',
        List.length_cons]
      congr 1
      omega

theorem lexemesFrom_gaps {gaps : List Char} (blank : ∀ c ∈ gaps, isGap c = true) (position : Nat)
    (source : List Char) :
    lexemesFrom position (gaps ++ source) = lexemesFrom (position + gaps.length) source := by
  induction gaps generalizing position with
  | nil => rfl
  | cons c gaps ih =>
    obtain ⟨gap, others⟩ := List.forall_mem_cons.mp blank
    rw [List.cons_append, lexemesFrom_gap gap, ih others, List.length_cons]
    congr 1
    omega

/-- Only a run of blanks opens with a blank. -/
theorem solid_iff (found : first? (c :: rest) = some (lexeme, text)) :
    lexeme.isBlank = false ↔ isGap c = false := by
  constructor
  · intro solid
    rw [Bool.eq_false_iff]
    intro gap
    rw [first?_gap gap] at found
    cases found
    cases solid
  · intro solid
    cases reads_of_first? found with
    | blank gap => cases gap.symm.trans solid
    | number | fraction | name | symbol => rfl

end Step

/-- A text taken apart from its front: the blanks one at a time, the other lexemes whole, up to a
character that no lexeme starts with. -/
inductive Parts : List Char → Prop where
  | nil : Parts []
  | gap {c : Char} {rest : List Char} (gap : isGap c = true) (others : Parts rest) :
      Parts (c :: rest)
  | next {lexeme : Lexeme} {text rest : List Char}
      (first : first? (text ++ rest) = some (lexeme, text)) (solid : lexeme.isBlank = false)
      (others : Parts rest) : Parts (text ++ rest)
  | stray {c : Char} {rest : List Char} (missing : first? (c :: rest) = none) : Parts (c :: rest)

theorem parts : (source : List Char) → Parts source
  | [] => .nil
  | c :: rest => by
    cases gap : isGap c with
    | true => exact .gap gap (parts rest)
    | false =>
      cases found : first? (c :: rest) with
      | none => exact .stray found
      | some first =>
        obtain ⟨lexeme, text⟩ := first
        obtain ⟨some, ⟨behind, whole⟩, -⟩ := first?_eq_some found
        have solid := (solid_iff found).mpr gap
        have shorter : behind.length ≤ rest.length := by
          have length := congrArg List.length whole
          have positive := List.length_pos_of_ne_nil some
          simp only [List.length_append, List.length_cons] at length
          omega
        have others := parts behind
        rw [← whole] at found ⊢
        exact .next found solid others
termination_by source => source.length

/-! ## Blanks in front and behind -/

theorem lexemesFrom_shift (position offset : Nat) (source : List Char) :
    lexemesFrom (position + offset) source =
      ((lexemesFrom position source).map (List.map (Placed.relocate (· + offset)))).mapError
        (SourceFault.relocate (· + offset)) := by
  induction parts source generalizing position with
  | nil => rw [lexemesFrom_nil, lexemesFrom_nil]; rfl
  | gap gap _ ih => rw [lexemesFrom_gap gap, lexemesFrom_gap gap, Nat.add_right_comm, ih]
  | @next lexeme text rest first solid _ ih =>
    rw [lexemesFrom_next first solid, lexemesFrom_next first solid, Nat.add_right_comm, ih]
    cases lexemesFrom (position + text.length) rest <;> rfl
  | stray missing => rw [lexemesFrom_stray missing, lexemesFrom_stray missing]; rfl

/-- A lexeme that is no run of blanks does not go on with blanks. -/
theorem first?_append_gaps {first : Char} (solid : isGap first = false) {gaps : List Char}
    (blank : ∀ c ∈ gaps, isGap c = true) (rest : List Char) :
    first? (first :: rest ++ gaps) = first? (first :: rest) := by
  cases gaps with
  | nil => rw [List.append_nil]
  | cons c more =>
    have delimits := delimits_of_isGap (blank c List.mem_cons_self)
    exact first?_cons_append_cons delimits (.inl solid) rest more

theorem lexemesFrom_append_gaps {gaps : List Char} (blank : ∀ c ∈ gaps, isGap c = true)
    (position : Nat) (source : List Char) :
    lexemesFrom position (source ++ gaps) = lexemesFrom position source := by
  induction parts source generalizing position with
  | nil =>
    have all := lexemesFrom_gaps blank position []
    rw [List.append_nil, lexemesFrom_nil] at all
    rw [List.nil_append, all, lexemesFrom_nil]
  | gap gap _ ih => rw [List.cons_append, lexemesFrom_gap gap, lexemesFrom_gap gap, ih]
  | @next lexeme text rest first solid _ ih =>
    obtain ⟨some, -, -⟩ := first?_eq_some first
    obtain ⟨c, others, rfl⟩ := List.exists_cons_of_ne_nil some
    have first' : first? (c :: others ++ (rest ++ gaps)) = Option.some (lexeme, c :: others) := by
      rw [← List.append_assoc, List.cons_append,
        first?_append_gaps ((solid_iff first).mp solid) blank]
      exact first
    rw [List.append_assoc, lexemesFrom_next first' solid, lexemesFrom_next first solid, ih]
  | @stray c rest missing =>
    have solid : isGap c = false := by
      rw [Bool.eq_false_iff]
      intro gap
      rw [first?_gap gap] at missing
      cases missing
    have missing' : first? (c :: (rest ++ gaps)) = none :=
      (first?_append_gaps solid blank rest).trans missing
    rw [List.cons_append, lexemesFrom_stray missing', lexemesFrom_stray missing]

/-- Blanks around a text move what is found in it by those in front, and change nothing else. -/
theorem scan_surrounded {before after : String} (blank : ∀ c ∈ before.toList, isGap c = true)
    (blank' : ∀ c ∈ after.toList, isGap c = true) (source : String) :
    scan (before ++ source ++ after) =
      ((scan source).map (List.map (Placed.relocate (· + before.utf8ByteSize)))).mapError
        (SourceFault.relocate (· + before.utf8ByteSize)) := by
  have size : before.utf8ByteSize = before.toList.length := by
    rw [← String.utf8Len_toList]
    exact Text.utf8Len_of_ascii fun c member => Pattern.utf8Size_of_isGap c (blank c member)
  rw [scan_eq_lexemesFrom, scan_eq_lexemesFrom, size, ← lexemesFrom_shift]
  simp only [String.toList_append]
  rw [lexemesFrom_append_gaps blank', lexemesFrom_gaps blank]

/-! ## Blanks between lexemes -/

/-- The second text is the first one with more blanks: at its lexemes, at its own blanks or at its
end, but not inside a lexeme. -/
inductive Spaced : (source spaced : List Char) → Prop where
  | nil : Spaced [] []
  | insert {c : Char} {source spaced : List Char} (gap : isGap c = true)
      (others : Spaced source spaced) : Spaced source (c :: spaced)
  | blank {c : Char} {rest spaced : List Char} (gap : isGap c = true)
      (others : Spaced rest spaced) : Spaced (c :: rest) (c :: spaced)
  | lexeme {lexeme : Lexeme} {text rest spaced : List Char}
      (first : first? (text ++ rest) = some (lexeme, text)) (solid : lexeme.isBlank = false)
      (others : Spaced rest spaced) : Spaced (text ++ rest) (text ++ spaced)

/-- A lexeme that is a number is a decimal, and its form is the one of its text. -/
def Settled : Lexeme → Prop
  | number form text => form ≠ .other ∧ HasForm form text.toList
  | _ => True

theorem longest?_chars (symbol : Symbol) : Symbol.longest? symbol.chars = some symbol := by
  cases symbol <;> rfl

section Cut
variable {c : Char} {lexeme lexeme' : Lexeme} {text rest rest' : List Char}

/-- An opening and a text make one lexeme, but for the form of a number. -/
theorem eq_or_number (found : first? (c :: rest) = some (lexeme, text))
    (found' : first? (c :: rest') = some (lexeme', text)) :
    lexeme' = lexeme ∨ ∃ form form', lexeme = .number form (String.ofList text) ∧
      lexeme' = .number form' (String.ofList text) := by
  have told := lexeme_of_opening found
  have told' := lexeme_of_opening found'
  generalize opening c = opens at told told'
  cases opens with
  | gap | letter => exact .inl (told'.trans told.symm)
  | digit | point =>
    obtain ⟨form, number⟩ := told
    obtain ⟨form', number'⟩ := told'
    exact .inr ⟨form, form', number, number'⟩
  | mark =>
    obtain ⟨written, rfl, rfl⟩ := told
    obtain ⟨written', rfl, same⟩ := told'
    have read := longest?_chars written'
    rw [same, longest?_chars] at read
    exact .inl (congrArg Lexeme.symbol (Option.some.inj read.symm))

/-- A settled lexeme is read as if the text ended anywhere behind it. -/
theorem first?_cut {behind : List Char} (settled : Settled lexeme)
    (first : first? (text ++ (rest ++ behind)) = some (lexeme, text)) :
    first? (text ++ rest) = some (lexeme, text) := by
  obtain ⟨some, -, -⟩ := first?_eq_some first
  obtain ⟨lexeme', first'⟩ := first?_of_longest (longest_of_first? first).1.cut
  have same : lexeme' = lexeme := by
    obtain ⟨c, others, rfl⟩ := List.exists_cons_of_ne_nil some
    rcases eq_or_number first first' with same | ⟨form, form', rfl, rfl⟩
    · exact same
    obtain ⟨decimal, has⟩ : form ≠ .other ∧ HasForm form (String.ofList (c :: others)).toList :=
      settled
    rw [String.toList_ofList] at has
    -- With less in sight the number may be cut short, which no decimal is.
    rcases form_of_first? first' with short | ⟨has', -⟩
    · exact absurd (has.unique short.hasForm) decimal
    · rw [has'.unique has]
  rw [first', same]

end Cut

namespace Spaced
variable {source spaced : List Char}

/-- A text with more blanks goes on as the text does until the first of them. -/
theorem agree (more : Spaced source spaced) :
    spaced = source ∨ ∃ common c rest behind, source = common ++ rest ∧
      spaced = common ++ c :: behind ∧ isGap c = true := by
  induction more with
  | nil => exact .inl rfl
  | @insert c source spaced gap _ _ => exact .inr ⟨[], c, source, spaced, rfl, rfl, gap⟩
  | @blank c rest spaced gap _ ih =>
    rcases ih with rfl | ⟨common, c', rest', behind, rfl, rfl, gap'⟩
    · exact .inl rfl
    · exact .inr ⟨c :: common, c', rest', behind, rfl, rfl, gap'⟩
  | @lexeme _ text rest spaced _ _ _ ih =>
    rcases ih with rfl | ⟨common, c', rest', behind, rfl, rfl, gap'⟩
    · exact .inl rfl
    · exact .inr ⟨text ++ common, c', rest', behind, by simp, by simp, gap'⟩

/-- More blanks behind a settled lexeme do not change it. -/
theorem first?_eq (more : Spaced source spaced) {lexeme : Lexeme} {text : List Char}
    (settled : Settled lexeme) (solid : lexeme.isBlank = false)
    (first : first? (text ++ source) = some (lexeme, text)) :
    first? (text ++ spaced) = some (lexeme, text) := by
  rcases more.agree with rfl | ⟨common, c, rest, behind, rfl, rfl, gap⟩
  · exact first
  obtain ⟨some, -, -⟩ := first?_eq_some first
  obtain ⟨head, tail, rfl⟩ := List.exists_cons_of_ne_nil some
  rw [← List.append_assoc, List.cons_append,
    first?_cons_append_cons (delimits_of_isGap gap) (.inl ((solid_iff first).mp solid))]
  exact first?_cut settled first

/-- More blanks do not change what is found, where all that is found is settled. -/
theorem lexemesFrom_eq (more : Spaced source spaced) {position : Nat} {lexemes : List Placed}
    (scanned : lexemesFrom position source = .ok lexemes)
    (settled : ∀ placed ∈ lexemes, Settled placed.lexeme) (position' : Nat) :
    ∃ lexemes', lexemesFrom position' spaced = .ok lexemes' ∧
      lexemes'.map Placed.lexeme = lexemes.map Placed.lexeme := by
  induction more generalizing position position' lexemes with
  | nil =>
    rw [lexemesFrom_nil] at scanned
    cases scanned
    exact ⟨[], lexemesFrom_nil position', rfl⟩
  | insert gap _ ih =>
    rw [lexemesFrom_gap gap]
    exact ih scanned settled (position' + 1)
  | blank gap _ ih =>
    rw [lexemesFrom_gap gap] at scanned ⊢
    exact ih scanned settled (position' + 1)
  | @lexeme lexeme text rest spaced first solid more ih =>
    rw [lexemesFrom_next first solid] at scanned
    cases found : lexemesFrom (position + text.length) rest with
    | error fault => simp [found, Except.map] at scanned
    | ok others =>
      rw [found] at scanned
      cases scanned
      obtain ⟨one, each⟩ := List.forall_mem_cons.mp settled
      obtain ⟨others', found', same⟩ := ih found each (position' + text.length)
      refine ⟨⟨lexeme, position'⟩ :: others', ?_, by rw [List.map_cons, same, List.map_cons]⟩
      rw [lexemesFrom_next (more.first?_eq one solid first) solid, found']
      rfl

end Spaced

theorem scan_spaced {source spaced : String} {lexemes : List Placed}
    (more : Spaced source.toList spaced.toList) (scanned : scan source = .ok lexemes)
    (settled : ∀ placed ∈ lexemes, Settled placed.lexeme) :
    ∃ lexemes', scan spaced = .ok lexemes' ∧
      lexemes'.map Placed.lexeme = lexemes.map Placed.lexeme := by
  rw [scan_eq_lexemesFrom] at scanned ⊢
  exact more.lexemesFrom_eq scanned settled 0

end Reckon.Lexeme
