/- Reckon.Proofs.Program.Spacing — blanks make no difference to a program

Blanks around a text move its tree, or the fault that it is refused for, by as many bytes as stand
in front, and do nothing else to it (`parse_surrounded`).  Blanks between the lexemes of a text
that compiles do nothing to its program: all numbers of such a text are decimals
(`settled_of_compile`), so the lexemes stay what they are, and where they stand is no matter to a
program (`compile_spaced`).
-/
import Reckon.Proofs.Expr.Numeral
import Reckon.Proofs.Expr.Relocation
import Reckon.Proofs.Lexeme.Spacing
import Reckon.Proofs.Program.Alternation

namespace Reckon
set_option autoImplicit false

open Lexeme (isGap Settled Spaced)

/-! ## Around a text -/

namespace Expr

theorem parse_surrounded {before after : String} (blank : ∀ c ∈ before.toList, isGap c = true)
    (blank' : ∀ c ∈ after.toList, isGap c = true) (source : String) :
    parse (before ++ source ++ after) =
      ((parse source).map (relocate (· + before.utf8ByteSize))).mapError
        (SourceFault.relocate (· + before.utf8ByteSize)) := by
  have scanned := Lexeme.scan_surrounded blank blank' source
  cases found : Lexeme.scan source with
  | error fault =>
    rw [found] at scanned
    rw [parse_of_scan_error scanned, parse_of_scan_error found]
    rfl
  | ok lexemes =>
    rw [found] at scanned
    rw [parse_eq_ofLexemes scanned, parse_eq_ofLexemes found, ofLexemes_relocate]

end Expr

/-! ## Between its lexemes -/

namespace Lexeme

/-- A number that has a value is a decimal in the form of its text. -/
theorem settled_of_value {form : NumberForm} {text behind : List Char} {written : String}
    {position : Nat} {x : Float}
    (found : first? (text ++ behind) = some (.number form written, text))
    (value : Expr.literalValue form written position = .ok x) : Settled (.number form written) := by
  obtain ⟨-, -, spelled⟩ := first?_eq_some found
  obtain rfl : written = String.ofList text := spelled
  have within : text ∈ Pattern.word + Pattern.real := (longest_of_first? found).2
  rcases form_of_first? found with short | ⟨has, -⟩
  · rw [← String.toList_ofList (l := text)] at within short
    rw [Expr.outOfRange_of_cutShort within short] at value
    cases value
  · refine ⟨?_, by rwa [String.toList_ofList]⟩
    rintro rfl
    cases value

end Lexeme

namespace Program

/-- All numbers of a text that compiles are decimals. -/
theorem settled_of_compile {source : String} {program : Program} {lexemes : List Placed}
    (compiled : compile source = .ok program) (scanned : Lexeme.scan source = .ok lexemes) :
    ∀ placed ∈ lexemes, Settled placed.lexeme := by
  obtain ⟨tree, formula, parsed, computed, -⟩ := (compile_eq_ok_iff _ _).mp compiled
  obtain ⟨lexemes', scanned', derived⟩ := Expr.derives_of_parse parsed
  obtain rfl : lexemes = lexemes' := by simpa [scanned] using scanned'
  have translated := Expr.translate_of_derives derived computed
  obtain ⟨all, takes, rfl⟩ := Lexeme.takes_of_scan scanned
  rintro ⟨lexeme, position⟩ member
  obtain ⟨token, stands⟩ := Lexeme.token?_of_translate translated _ member
  cases lexeme with
  | number form written =>
    obtain ⟨form', written', x, same, rfl⟩ | ⟨_, _, _, same, -⟩ | ⟨same, -⟩ | ⟨same, -⟩ :=
      Lexeme.token?_cases stands <;> cases same
    obtain ⟨before, text, after, -, -, first⟩ := takes.first _ (List.mem_of_mem_filter member)
    exact Lexeme.settled_of_value first ((Lexeme.token?_number form written position x).mp stands)
  | name | symbol | blank => trivial

/-- More blanks between the lexemes of a text that compiles do not change the program. -/
theorem compile_spaced {source spaced : String} {program : Program}
    (compiled : compile source = .ok program) (more : Spaced source.toList spaced.toList) :
    compile spaced = .ok program := by
  obtain ⟨tree, formula, parsed, computed, rfl⟩ := (compile_eq_ok_iff _ _).mp compiled
  obtain ⟨lexemes, scanned, -⟩ := Expr.derives_of_parse parsed
  obtain ⟨lexemes', scanned', same⟩ :=
    Lexeme.scan_spaced more scanned (settled_of_compile compiled scanned)
  rw [Expr.parse_eq_ofLexemes scanned] at parsed
  obtain ⟨tree', parsed', computed'⟩ := Expr.formula_of_same_lexemes same parsed computed
  refine (compile_eq_ok_iff _ _).mpr ⟨tree', formula, ?_, computed', rfl⟩
  rw [Expr.parse_eq_ofLexemes scanned', parsed']

/-- **Blanks make no difference.**  Blanks around a text move its tree, or its fault, by as many
bytes as stand in front, and change nothing else.  Where a text compiles, any blanks between its
lexemes, in front of them and behind them leave the program as it is. -/
theorem blanks_insignificant :
    (∀ before source after : String, (∀ c ∈ before.toList, isGap c = true) →
        (∀ c ∈ after.toList, isGap c = true) →
          Expr.parse (before ++ source ++ after) =
            ((Expr.parse source).map (Expr.relocate (· + before.utf8ByteSize))).mapError
              (SourceFault.relocate (· + before.utf8ByteSize))) ∧
      ∀ source spaced program, compile source = .ok program →
        Spaced source.toList spaced.toList → compile spaced = .ok program :=
  ⟨fun _ source _ blank blank' => Expr.parse_surrounded blank blank' source,
    fun _ _ _ compiled more => compile_spaced compiled more⟩

/-- Blanks around a signed exponent and inside parentheses, and a group that stays open behind
blanks. -/
theorem blanks_insignificant_exponent :
    ∃ program, compile "1e+2-(3)" = .ok program ∧
      Spaced "1e+2-(3)".toList " 1e+2\t-( 3)\n".toList ∧
      compile " 1e+2\t-( 3)\n" = .ok program ∧
      (∀ c ∈ "\r\n".toList, isGap c = true) ∧ (∀ c ∈ " \x0c".toList, isGap c = true) ∧
      Expr.parse "1e+2-(3" = .error (.unclosedGroup 5) ∧
      Expr.parse ("\r\n" ++ "1e+2-(3" ++ " \x0c") = .error (.unclosedGroup 7) := by
  have read : (Number.read? "1e+2").isSome = true := by decide +kernel
  obtain ⟨x, hundred⟩ := Option.isSome_iff_exists.mp read
  have three : Number.readInteger? "3" = some 3 := by cbv
  let tree : Expr := .binary (.literal .real "1e+2" 0) .sub (.group (.literal .integer "3" 6) 5) 4
  have computed : tree.formula =
      .ok (.node (.value x) .sub (.group (.value (Number.ofInteger 3)))) := by
    simp [tree, Expr.formula, Expr.literalValue, hundred, three, Except.map, BinaryOp.operation?]
  have compiled : compile "1e+2-(3)" = .ok _ :=
    (compile_eq_ok_iff _ _).mpr ⟨tree, _, by cbv, computed, rfl⟩
  have inside : Spaced "3)".toList " 3)\n".toList :=
    .insert rfl (@Spaced.lexeme (.number .integer "3") ['3'] [')'] [')', '\n'] (by cbv) rfl
      (@Spaced.lexeme (.symbol .rightParen) [')'] [] ['\n'] (by cbv) rfl (.insert rfl .nil)))
  have behind : Spaced "-(3)".toList "\t-( 3)\n".toList :=
    .insert rfl (@Spaced.lexeme (.symbol .minus) ['-'] _ _ (by cbv) rfl
      (@Spaced.lexeme (.symbol .leftParen) ['('] _ _ (by cbv) rfl inside))
  have more : Spaced "1e+2-(3)".toList " 1e+2\t-( 3)\n".toList :=
    .insert rfl (@Spaced.lexeme (.number .real "1e+2") "1e+2".toList _ _ (by cbv) rfl behind)
  have front : ∀ c ∈ "\r\n".toList, isGap c = true := by simp [isGap]
  have rear : ∀ c ∈ " \x0c".toList, isGap c = true := by simp [isGap]
  have refused : Expr.parse "1e+2-(3" = .error (.unclosedGroup 5) := by cbv
  obtain ⟨around, between⟩ := blanks_insignificant
  refine ⟨_, compiled, more, between _ _ _ compiled more, front, rear, refused, ?_⟩
  rw [around _ _ _ front rear, refused]
  rfl

end Program
end Reckon
