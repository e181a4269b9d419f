/- Reckon.Proofs.Lexeme.Placement — lexemes lie one behind the other

Every lexeme is read off the front of what is left of the text and is not empty
(`first?_eq_some`).  So a text that is scanned is the texts of its lexemes one
behind the other, the blanks included, each lexeme placed where its text begins
(`Takes`).  A text that is not scanned is so up to the character at fault.

Where no more is asked than how the lexemes lie, `Lays` forgets what the front was
read from.  It gives the two measures: positions increase, and a lexeme ends where
the text ends at the latest.
-/
import Reckon.Proofs.Text.Ascii
import Reckon.Lexeme.Scan

namespace Reckon.Lexeme
set_option autoImplicit false

open Decimal (isDigit isExponentMark isSign splitFraction)

/-! ## The text of a number -/

theorem splitWord_append (source : List Char) :
    (splitWord source).1 ++ (splitWord source).2 = source := by
  unfold splitWord
  simp only [List.span_eq_takeWhile_dropWhile]
  have whole := List.takeWhile_append_dropWhile (p := isWordChar) (l := source)
  split
  · rename_i rest point
    rw [point] at whole
    rw [List.append_assoc, List.cons_append, List.takeWhile_append_dropWhile, whole]
  · exact whole

theorem splitWord_ne_nil {c : Char} (opens : isWordChar c = true) (rest : List Char) :
    (splitWord (c :: rest)).1 ≠ [] := by
  unfold splitWord
  simp only [List.span_eq_takeWhile_dropWhile, List.takeWhile_cons_of_pos opens]
  split <;> simp

/-- A number is the word at the front, or that and the rest of a signed exponent. -/
theorem numberText_eq (source : List Char) :
    (numberText source).2 = (splitWord source).1 ∨
      ∃ sign more, (splitWord source).2 = sign :: more ∧
        (numberText source).2 = (splitWord source).1 ++ sign :: more.takeWhile isDigit := by
  unfold numberText
  simp only
  split
  · exact .inl rfl
  · split
    · exact .inl rfl
    · split
      · exact .inl rfl
      · split
        · rename_i sign more behind
          split
          · exact .inl rfl
          · split
            · exact .inl rfl
            · exact .inr ⟨sign, more, behind, rfl⟩
        · exact .inl rfl

theorem numberText_front (source : List Char) : (numberText source).2 <+: source := by
  have whole := splitWord_append source
  rcases numberText_eq source with word | ⟨sign, more, behind, longer⟩
  · exact ⟨_, by rw [word, whole]⟩
  · refine ⟨more.dropWhile isDigit, ?_⟩
    rw [longer, List.append_assoc, List.cons_append, List.takeWhile_append_dropWhile, ← behind,
      whole]

theorem numberText_ne_nil {c : Char} (digit : isDigit c = true) (rest : List Char) :
    (numberText (c :: rest)).2 ≠ [] := by
  have word : (splitWord (c :: rest)).1 ≠ [] := splitWord_ne_nil (by simp [isWordChar, digit]) rest
  rcases numberText_eq (c :: rest) with same | ⟨sign, more, -, longer⟩
  · rwa [same]
  · rw [longer]
    simp

theorem exponentText_front (source : List Char) : exponentText source <+: source := by
  cases source with
  | nil => exact List.nil_prefix
  | cons mark rest =>
    unfold exponentText
    simp only
    split
    · exact List.nil_prefix
    · refine (List.prefix_cons_inj mark).mpr ?_
      -- The sign is the first character or nothing.
      have sign : (rest.take 1).filter isSign ++
          rest.drop ((rest.take 1).filter isSign).length = rest := by
        cases rest with
        | nil => rfl
        | cons c rest => cases signed : isSign c <;> simp [signed]
      conv_rhs => rw [← sign]
      exact (List.prefix_append_right_inj _).mpr (List.takeWhile_prefix _)

theorem fractionText?_eq_some {rest text : List Char}
    (found : fractionText? ('.' :: rest) = some text) : text ≠ [] ∧ text <+: '.' :: rest := by
  unfold fractionText? at found
  simp only [splitFraction, List.span_eq_takeWhile_dropWhile] at found
  split at found
  · cases found
  · cases found
    refine ⟨List.cons_ne_nil _ _, (List.prefix_cons_inj _).mpr ?_⟩
    conv_rhs => rw [← List.takeWhile_append_dropWhile (p := isDigit) (l := rest)]
    exact (List.prefix_append_right_inj _).mpr (exponentText_front _)

/-! ## One lexeme -/

/-- The text is one that the lexeme is read from. -/
def Spells (text : List Char) : Lexeme → Prop
  | number _ written | name written => written = String.ofList text
  | symbol written => written.chars = text
  | blank => ∀ c ∈ text, isGap c = true

theorem chars_ne_nil (symbol : Symbol) : symbol.chars ≠ [] := by
  cases symbol <;> decide

theorem chars_front {source : List Char} {symbol : Symbol}
    (found : Symbol.longest? source = some symbol) : symbol.chars <+: source := by
  unfold Symbol.longest? at found
  have front := List.find?_some found
  exact List.isPrefixOf_iff_prefix.mp front

/-- The lexeme at the front of a source and its text, as the first character decides on them. -/
inductive Reads : (source : List Char) → Lexeme → (text : List Char) → Prop where
  | blank {c : Char} {rest : List Char} (gap : isGap c = true) :
      Reads (c :: rest) .blank ((c :: rest).takeWhile isGap)
  | number {c : Char} {rest text : List Char} {form : NumberForm} (digit : isDigit c = true)
      (read : numberText (c :: rest) = (form, text)) :
      Reads (c :: rest) (.number form (String.ofList text)) text
  | fraction {rest text : List Char} (read : fractionText? ('.' :: rest) = some text) :
      Reads ('.' :: rest) (.number .real (String.ofList text)) text
  | name {c : Char} {rest : List Char} (letter : isNameStart c = true) :
      Reads (c :: rest) (.name (String.ofList ((c :: rest).takeWhile isWordChar)))
        ((c :: rest).takeWhile isWordChar)
  | symbol {source : List Char} {written : Symbol} (read : Symbol.longest? source = some written) :
      Reads source (.symbol written) written.chars

theorem reads_of_first? {source text : List Char} {lexeme : Lexeme}
    (found : first? source = some (lexeme, text)) : Reads source lexeme text := by
  unfold first? at found
  split at found
  · cases found
  rename_i c rest
  split at found
  · rename_i gap
    cases found
    exact .blank gap
  split at found
  · rename_i digit
    cases read : numberText (c :: rest) with
    | mk form written =>
      rw [read] at found
      cases found
      exact .number digit read
  split at found
  · rename_i point
    obtain ⟨fraction, read, same⟩ := Option.map_eq_some_iff.mp found
    cases same
    obtain rfl : c = '.' := by simpa using point
    exact .fraction read
  split at found
  · rename_i letter
    cases found
    exact .name letter
  · obtain ⟨written, read, same⟩ := Option.map_eq_some_iff.mp found
    cases same
    exact .symbol read

/-- A lexeme is read off the front of a text, and takes something. -/
theorem first?_eq_some {source text : List Char} {lexeme : Lexeme}
    (found : first? source = some (lexeme, text)) :
    text ≠ [] ∧ text <+: source ∧ Spells text lexeme := by
  cases reads_of_first? found with
  | blank gap =>
    exact ⟨by simp [gap], List.takeWhile_prefix _, fun c member => List.mem_takeWhile_imp member⟩
  | @number c rest _ form digit read =>
    have some := numberText_ne_nil digit rest
    have front := numberText_front (c :: rest)
    rw [read] at some front
    exact ⟨some, front, rfl⟩
  | fraction read =>
    obtain ⟨some, front⟩ := fractionText?_eq_some read
    exact ⟨some, front, rfl⟩
  | name letter => exact ⟨by simp [isWordChar, letter], List.takeWhile_prefix _, rfl⟩
  | symbol read => exact ⟨chars_ne_nil _, chars_front read, rfl⟩

/-! ## All lexemes -/

/-- The text, which starts at the offset, is the texts of the lexemes one behind the
other. -/
inductive Lays : (position : Nat) → (source : List Char) → List Placed → Prop where
  | done (position : Nat) : Lays position [] []
  | next {lexeme : Lexeme} {text rest : List Char} {lexemes : List Placed} (position : Nat)
      (some : text ≠ []) (spelled : Spells text lexeme)
      (others : Lays (position + text.length) rest lexemes) :
      Lays position (text ++ rest) (⟨lexeme, position⟩ :: lexemes)

/-- The text, which starts at the offset and has `behind` after it, is the texts of the
lexemes one behind the other, and each of them is the one that is read off the front of what
is left there. -/
inductive Takes (behind : List Char) :
    (position : Nat) → (source : List Char) → List Placed → Prop where
  | done (position : Nat) : Takes behind position [] []
  | next {lexeme : Lexeme} {text rest : List Char} {lexemes : List Placed} (position : Nat)
      (first : first? (text ++ (rest ++ behind)) = some (lexeme, text))
      (others : Takes behind (position + text.length) rest lexemes) :
      Takes behind position (text ++ rest) (⟨lexeme, position⟩ :: lexemes)

theorem Takes.lays {behind source : List Char} {position : Nat} {lexemes : List Placed}
    (takes : Takes behind position source lexemes) : Lays position source lexemes := by
  induction takes with
  | done position => exact .done position
  | next position first others ih =>
    obtain ⟨some, -, spelled⟩ := first?_eq_some first
    exact .next position some spelled ih

/-- What a lexeme leaves of a text is what stands behind it. -/
theorem drop_of_front {c : Char} {text rest behind : List Char} (some : text ≠ [])
    (whole : text ++ behind = c :: rest) : rest.drop (text.length - 1) = behind := by
  obtain ⟨head, tail, rfl⟩ := List.exists_cons_of_ne_nil some
  obtain ⟨rfl, rfl⟩ := List.cons.inj whole
  simp

/-- Scanning takes the lexemes of the text, or those in front of a character that no lexeme
starts with. -/
theorem scanFrom_takes (position : Nat) (found : List Placed) (source : List Char) :
    match scanFrom position found source with
    | .ok lexemes => ∃ new, lexemes = found.reverse ++ new ∧ Takes [] position source new
    | .error fault => ∃ before c after new, source = before ++ c :: after ∧
        Takes (c :: after) position before new ∧ first? (c :: after) = none ∧
        fault = .strayCharacter (String.singleton c) (position + before.length) := by
  fun_induction scanFrom position found source with
  | case1 position found => exact ⟨[], (List.append_nil _).symm, .done position⟩
  | case2 position found c rest stray =>
    exact ⟨[], c, rest, [], rfl, .done position, stray, rfl⟩
  | case3 position found c rest lexeme text first ih =>
    obtain ⟨some, ⟨behind, whole⟩, -⟩ := first?_eq_some first
    rw [drop_of_front some whole] at ih ⊢
    rw [← whole] at first ⊢
    generalize scanFrom (position + text.length) (⟨lexeme, position⟩ :: found) behind = result
      at ih ⊢
    cases result with
    | ok lexemes =>
      obtain ⟨new, rfl, takes⟩ := ih
      rw [← List.append_nil behind] at first
      exact ⟨⟨lexeme, position⟩ :: new, by simp, .next position first takes⟩
    | error fault =>
      obtain ⟨before, c, after, new, rfl, takes, stray, rfl⟩ := ih
      refine ⟨text ++ before, c, after, ⟨lexeme, position⟩ :: new, by simp,
        .next position first takes, stray, ?_⟩
      rw [List.length_append, Nat.add_assoc]

theorem scanFrom_append (position : Nat) (found older : List Placed) (source : List Char) :
    scanFrom position (found ++ older) source =
      (scanFrom position found source).map (older.reverse ++ ·) := by
  fun_induction scanFrom position found source with
  | case1 position found => simp [scanFrom, Except.map]
  | case2 position found c rest stray => simp [scanFrom, stray, Except.map]
  | case3 position found c rest lexeme text first ih =>
    rw [scanFrom]
    simp only [first]
    exact ih

theorem scanFrom_next {lexeme : Lexeme} {text rest : List Char}
    (first : first? (text ++ rest) = some (lexeme, text))
    (position : Nat) :
    scanFrom position [] (text ++ rest) =
      (scanFrom (position + text.length) [] rest).map (⟨lexeme, position⟩ :: ·) := by
  obtain ⟨some, -, -⟩ := first?_eq_some first
  obtain ⟨c, tail, same⟩ : ∃ c tail, text ++ rest = c :: tail :=
    List.exists_cons_of_ne_nil (by simp [some])
  rw [same] at first ⊢
  rw [scanFrom]
  simp only [first]
  rw [drop_of_front some same]
  exact scanFrom_append _ [] [⟨lexeme, position⟩] rest

/-- Lexemes that are taken of all of a text are those that scanning finds. -/
theorem scanFrom_of_takes {position : Nat} {source : List Char} {lexemes : List Placed}
    (takes : Takes [] position source lexemes) (found : List Placed) :
    scanFrom position found source = .ok (found.reverse ++ lexemes) := by
  induction takes generalizing found with
  | done position => rw [scanFrom, List.append_nil]
  | @next lexeme text rest lexemes position first others ih =>
    rw [List.append_nil] at first
    rw [← List.nil_append found, scanFrom_append, scanFrom_next first, ih]
    rfl

theorem scan_of_takes {source : String} {lexemes : List Placed}
    (takes : Takes [] 0 source.toList lexemes) :
    scan source = .ok (lexemes.filter fun placed => !placed.lexeme.isBlank) := by
  simp [scan, scanFrom_of_takes takes [], bind, Except.bind, pure, Except.pure]

/-- A text that is scanned is its lexemes, the blanks among them. -/
theorem takes_of_scan {source : String} {lexemes : List Placed}
    (scanned : scan source = .ok lexemes) :
    ∃ all, Takes [] 0 source.toList all ∧
      lexemes = all.filter fun placed => !placed.lexeme.isBlank := by
  have takes := scanFrom_takes 0 [] source.toList
  cases found : scanFrom 0 [] source.toList with
  | error fault => simp [scan, found, bind, Except.bind] at scanned
  | ok all =>
    rw [found] at takes
    obtain ⟨new, same, takes⟩ := takes
    obtain rfl : all = new := same
    refine ⟨all, takes, ?_⟩
    simpa [scan, found, bind, Except.bind, pure, Except.pure] using scanned.symm

/-- A text that is not scanned is lexemes up to a character that no lexeme starts with. -/
theorem takes_of_scan_error {source : String} {fault : SourceFault}
    (failed : scan source = .error fault) :
    ∃ before c after all, source.toList = before ++ c :: after ∧
      Takes (c :: after) 0 before all ∧ first? (c :: after) = none ∧
      fault = .strayCharacter (String.singleton c) before.length := by
  have takes := scanFrom_takes 0 [] source.toList
  cases found : scanFrom 0 [] source.toList with
  | ok all => simp [scan, found, bind, Except.bind, pure, Except.pure] at failed
  | error fault' =>
    rw [found] at takes
    obtain ⟨before, c, after, all, whole, takes, stray, rfl⟩ := takes
    refine ⟨before, c, after, all, whole, takes, stray, ?_⟩
    simpa [scan, found, bind, Except.bind] using failed.symm

theorem scan_eq_ok {source : String} {lexemes : List Placed}
    (scanned : scan source = .ok lexemes) :
    ∃ all, Lays 0 source.toList all ∧ lexemes = all.filter fun placed => !placed.lexeme.isBlank := by
  obtain ⟨all, takes, same⟩ := takes_of_scan scanned
  exact ⟨all, takes.lays, same⟩

/-- The only fault of scanning is a character that stands in the text. -/
theorem scan_eq_error {source : String} {fault : SourceFault}
    (failed : scan source = .error fault) :
    ∃ before c after, source.toList = before ++ c :: after ∧
      fault = .strayCharacter (String.singleton c) before.length := by
  obtain ⟨before, c, after, -, whole, -, -, shown⟩ := takes_of_scan_error failed
  exact ⟨before, c, after, whole, shown⟩

/-! ## Measures -/

theorem utf8ByteSize_quoted (text : String) :
    ("'" ++ text ++ "'").utf8ByteSize = text.utf8ByteSize + 2 := by
  have quote : "'".utf8ByteSize = 1 := rfl
  rw [String.utf8ByteSize_append, String.utf8ByteSize_append, quote]
  omega

/-- A lexeme is shown between two quotes, unless it is a run of blanks. -/
theorem utf8ByteSize_shown {text : List Char} {lexeme : Lexeme} (spelled : Spells text lexeme)
    (solid : lexeme.isBlank = false) : lexeme.shown.utf8ByteSize = String.utf8Len text + 2 := by
  cases lexeme with
  | blank => cases solid
  | number form written | name written =>
    obtain rfl : written = String.ofList text := spelled
    rw [shown, utf8ByteSize_quoted, String.utf8ByteSize_ofList]
  | symbol written =>
    obtain rfl : written.chars = text := spelled
    rw [shown, utf8ByteSize_quoted, String.utf8ByteSize_ofList]

namespace Lays
variable {position : Nat} {source : List Char} {lexemes : List Placed}

theorem position_le (lays : Lays position source lexemes) :
    ∀ placed ∈ lexemes, position ≤ placed.position := by
  induction lays with
  | done => intro placed member; cases member
  | next position some spelled others ih =>
    intro placed member
    rcases List.mem_cons.mp member with rfl | behind
    · exact Nat.le_refl _
    · have further := ih placed behind
      omega

theorem increasing (lays : Lays position source lexemes) :
    lexemes.Pairwise fun first second => first.position < second.position := by
  induction lays with
  | done => exact .nil
  | next position some spelled others ih =>
    refine .cons (fun placed behind => ?_) ih
    have further := others.position_le placed behind
    have positive := List.length_pos_of_ne_nil some
    simp only
    omega

/-- No lexeme ends behind the end of the text. -/
theorem ends (lays : Lays position source lexemes) :
    ∀ placed ∈ lexemes, placed.lexeme.isBlank = false →
      placed.position + placed.lexeme.shown.utf8ByteSize ≤
        position + String.utf8Len source + 2 := by
  induction lays with
  | done => intro placed member; cases member
  | @next lexeme text rest lexemes position some spelled others ih =>
    intro placed member solid
    rw [String.utf8Len_append]
    rcases List.mem_cons.mp member with rfl | behind
    · rw [utf8ByteSize_shown spelled solid]
      simp only
      omega
    · have further := ih placed behind solid
      have bytes := Text.length_le_utf8Len text
      omega

theorem length_le (lays : Lays position source lexemes) : lexemes.length ≤ source.length := by
  induction lays with
  | done => exact Nat.le_refl _
  | next position some spelled others ih =>
    have positive := List.length_pos_of_ne_nil some
    rw [List.length_append, List.length_cons]
    omega

end Lays

/-- The lexemes are in the order of their positions, lie within so many bytes and are
no more than these. -/
structure LieWithin (size : Nat) (lexemes : List Placed) : Prop where
  increasing : lexemes.Pairwise fun first second => first.position < second.position
  ends : ∀ placed ∈ lexemes, placed.position + placed.lexeme.shown.utf8ByteSize ≤ size + 2
  count : lexemes.length ≤ size

theorem lieWithin_of_scan {source : String} {lexemes : List Placed}
    (scanned : scan source = .ok lexemes) : LieWithin source.utf8ByteSize lexemes := by
  obtain ⟨all, lays, rfl⟩ := scan_eq_ok scanned
  have size := String.utf8Len_toList source
  refine ⟨lays.increasing.filter _, fun placed member => ?_, ?_⟩
  · obtain ⟨among, solid⟩ := List.mem_filter.mp member
    have within := lays.ends placed among (by simpa using solid)
    omega
  · have fewer := List.length_filter_le (fun placed => !placed.lexeme.isBlank) all
    have count := lays.length_le
    have bytes := Text.length_le_utf8Len source.toList
    omega

/-- Only the first lexeme may stand at the very start. -/
theorem LieWithin.position_pos {size : Nat} {lexemes : List Placed}
    (lie : LieWithin size lexemes) {placed : Placed} (behind : placed ∈ lexemes.tail) :
    0 < placed.position := by
  cases lexemes with
  | nil => cases behind
  | cons first others =>
    exact Nat.zero_lt_of_lt (List.rel_of_pairwise_cons lie.increasing behind)

end Reckon.Lexeme
