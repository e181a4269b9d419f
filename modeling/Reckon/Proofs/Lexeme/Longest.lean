/- Reckon.Proofs.Lexeme.Longest — the longest match of a pattern

A pattern may match several texts at the front of a source, and the longest of
them is meant (`Longest`).  A run, a name, a number-like word, an exponent and a
fraction all come to their longest match by taking what belongs to a class of
characters until there is no more of it (`length_le_takeWhile`).  Symbols are few
and are tried in the order of their length.
-/
import Reckon.Proofs.Lexeme.Pattern
import Reckon.Proofs.Number.Text

namespace Reckon.Lexeme
set_option autoImplicit false

open Decimal (isDigit isExponentMark isSign)
open Pattern

/-- The text stands at the front of the source, belongs to the language, and is as long as any
other that does. -/
structure Longest (language : Language Char) (text source : List Char) : Prop where
  front : text <+: source
  within : text ∈ language
  most : ∀ other ∈ language, other <+: source → other.length ≤ text.length

/-- There is only one longest match. -/
theorem Longest.unique {language : Language Char} {text text' source : List Char}
    (longest : Longest language text source) (longest' : Longest language text' source) :
    text = text' :=
  List.IsPrefix.eq_of_length
    (List.prefix_of_prefix_length_le longest.front longest'.front
      (longest'.most text longest.within longest.front))
    (Nat.le_antisymm (longest'.most text longest.within longest.front)
      (longest.most text' longest'.within longest'.front))

/-! ## Runs, names and symbols -/

section Run
variable {accepts : Char → Bool} {c : Char} {rest : List Char}

/-- Nothing at the front that is in a class goes further than the run of the class. -/
theorem length_le_takeWhile {front source : List Char} (each : ∀ c ∈ front, accepts c = true)
    (stands : front <+: source) : front.length ≤ (source.takeWhile accepts).length := by
  obtain ⟨behind, rfl⟩ := stands
  rw [List.takeWhile_append_of_pos each, List.length_append]
  exact Nat.le_add_right _ _

theorem longest_run (opens : accepts c = true) :
    Longest (run accepts) ((c :: rest).takeWhile accepts) (c :: rest) where
  front := List.takeWhile_prefix _
  within := mem_run.mpr ⟨by simp [opens], fun _ member => List.mem_takeWhile_imp member⟩
  most other within stands := length_le_takeWhile (mem_run.mp within).2 stands

theorem longest_name (opens : isNameStart c = true) :
    Longest Pattern.name ((c :: rest).takeWhile isWordChar) (c :: rest) where
  front := List.takeWhile_prefix _
  within := by
    have first : isWordChar c = true := by rw [isWordChar, opens, Bool.or_true]
    rw [List.takeWhile_cons_of_pos first]
    exact mem_one_mul.mpr
      ⟨c, _, opens, mem_any.mpr fun _ member => List.mem_takeWhile_imp member, rfl⟩
  most other within stands := by
    obtain ⟨first, others, letter, each, rfl⟩ := mem_one_mul.mp within
    refine length_le_takeWhile (List.forall_mem_cons.mpr ⟨?_, mem_any.mp each⟩) stands
    rw [isWordChar, letter, Bool.or_true]

end Run

theorem pairwise_all :
    Symbol.all.Pairwise fun first second => second.chars.length ≤ first.chars.length := by
  decide

theorem longest_symbol {source : List Char} {written : Symbol}
    (found : Symbol.longest? source = some written) :
    Longest Pattern.symbol written.chars source where
  front := chars_front found
  within := ⟨written, rfl⟩
  most := by
    rintro _ ⟨other, rfl⟩ stands
    obtain ⟨-, before, after, split, missed⟩ := List.find?_eq_some_iff_append.mp found
    have member : other ∈ Symbol.all := other.mem_all
    have sorted := pairwise_all
    rw [split] at member sorted
    rcases List.mem_append.mp member with earlier | later
    · have absent := missed other earlier
      rw [List.isPrefixOf_iff_prefix.mpr stands] at absent
      cases absent
    · rcases List.mem_cons.mp later with rfl | behind
      · exact Nat.le_refl _
      · exact List.rel_of_pairwise_cons (List.pairwise_append.mp sorted).2.1 behind

theorem not_symbol_of_longest? {source : List Char} (none : Symbol.longest? source = none) :
    ∀ other ∈ Pattern.symbol, ¬other <+: source := by
  rintro _ ⟨written, rfl⟩ stands
  have absent := List.find?_eq_none.mp none written written.mem_all
  exact absent (List.isPrefixOf_iff_prefix.mpr stands)

/-! ## Words -/

theorem longest_word {c : Char} (digit : isDigit c = true) (rest : List Char) :
    Longest word (splitWord (c :: rest)).1 (c :: rest) where
  front := ⟨_, splitWord_append _⟩
  within := by
    have first : isWordChar c = true := isWordChar_of_isDigit digit
    have each (source : List Char) : ∀ c ∈ source.takeWhile isWordChar, isWordChar c = true :=
      fun _ member => List.mem_takeWhile_imp member
    unfold splitWord
    simp only [List.span_eq_takeWhile_dropWhile, List.takeWhile_cons_of_pos first]
    split
    · exact mem_word.mpr ⟨c, _, digit, each _, .inr ⟨_, each _, rfl⟩⟩
    · exact mem_word.mpr ⟨c, _, digit, each _, .inl rfl⟩
  most := by
    intro other within stands
    obtain ⟨first, whole, digit', each, shape⟩ := mem_word.mp within
    have each' : ∀ c ∈ first :: whole, isWordChar c = true :=
      List.forall_mem_cons.mpr ⟨isWordChar_of_isDigit digit', each⟩
    unfold splitWord
    simp only [List.span_eq_takeWhile_dropWhile]
    rcases shape with rfl | ⟨places, inside, rfl⟩
    · have run := length_le_takeWhile each' stands
      split
      · rw [List.length_append]
        omega
      · exact run
    · obtain ⟨behind, same⟩ := stands
      have split' : (first :: whole) ++ '.' :: (places ++ behind) = c :: rest := by
        rw [← same]
        simp
      have point : ∀ c ∈ ('.' :: (places ++ behind)).head?, isWordChar c = false := by
        rintro _ ⟨⟩
        rfl
      obtain ⟨taken, left⟩ := span_run each' point
      rw [split'] at taken left
      have longer := length_le_takeWhile inside (List.prefix_append places behind)
      rw [taken, left]
      simp only [List.length_cons, List.length_append]
      omega

/-! ## Exponents and fractions -/

/-- A sign at the front is found if digits follow it, and none is found in front of digits. -/
theorem filter_isSign {sign digits rest : List Char}
    (signed : sign = [] ∨ ∃ c, isSign c = true ∧ sign = [c]) (written : digits ∈ run isDigit)
    (stands : sign ++ digits <+: rest) : (rest.take 1).filter isSign = sign := by
  obtain ⟨behind, rfl⟩ := stands
  rcases signed with rfl | ⟨c, sign, rfl⟩
  · obtain ⟨c, others, digit, -, rfl⟩ := mem_one_mul.mp written
    simp [Number.isSign_of_isDigit digit]
  · simp [sign]

theorem longest_exponent (source : List Char) :
    Longest (maybe exponent) (exponentText source) source := by
  have nothing : [] ∈ maybe exponent := .inl rfl
  cases source with
  | nil => exact ⟨List.nil_prefix, nothing, fun other _ stands => stands.length_le⟩
  | cons first rest =>
    refine ⟨exponentText_front _, ?_, ?_⟩
    · unfold exponentText
      dsimp only
      split
      · exact nothing
      · rename_i found
        simp only [Bool.or_eq_true, Bool.not_eq_true', List.isEmpty_iff, not_or,
          Bool.not_eq_false] at found
        refine .inr (mem_exponent.mpr ⟨first, _, _, found.1, ?_,
          mem_run.mpr ⟨found.2, fun _ member => List.mem_takeWhile_imp member⟩, rfl⟩)
        cases rest with
        | nil => exact .inl rfl
        | cons c rest => cases signed : isSign c <;> simp [signed]
    · rintro other (rfl | within) stands
      · exact Nat.zero_le _
      obtain ⟨mark, sign, digits, marks, signed, written, rfl⟩ := mem_exponent.mp within
      obtain ⟨rfl, behind⟩ := List.cons_prefix_cons.mp stands
      obtain ⟨filled, each⟩ := mem_run.mp written
      have found := filter_isSign signed written behind
      have reached : digits <+: rest.drop sign.length := by
        obtain ⟨after, rfl⟩ := behind
        exact ⟨after, by simp⟩
      have longer := length_le_takeWhile each reached
      have some := List.length_pos_of_ne_nil filled
      have taken : ((rest.drop sign.length).takeWhile isDigit).isEmpty = false := by
        rw [Bool.eq_false_iff, Ne, List.isEmpty_iff, ← List.length_eq_zero_iff]
        omega
      rw [exponentText, found, if_neg (by simp [marks, taken])]
      simp only [List.length_cons, List.length_append]
      omega

theorem longest_fraction {rest text : List Char} (found : fractionText? ('.' :: rest) = some text) :
    Longest fraction text ('.' :: rest) := by
  obtain ⟨-, front⟩ := fractionText?_eq_some found
  unfold fractionText? at found
  simp only [Decimal.splitFraction, List.span_eq_takeWhile_dropWhile] at found
  split at found
  · cases found
  rename_i written
  cases found
  rw [List.isEmpty_iff] at written
  have digits : rest.takeWhile isDigit ∈ run isDigit :=
    mem_run.mpr ⟨written, fun _ member => List.mem_takeWhile_imp member⟩
  have exponent := longest_exponent (rest.dropWhile isDigit)
  refine ⟨front, mem_fraction.mpr ⟨_, _, digits, exponent.within, rfl⟩, ?_⟩
  intro other within stands
  obtain ⟨digits', tail, written', spelled, rfl⟩ := mem_fraction.mp within
  obtain ⟨-, behind⟩ := List.cons_prefix_cons.mp stands
  have each := (mem_run.mp written').2
  simp only [List.length_cons, List.length_append]
  rcases spelled with rfl | spelled
  · have run := length_le_takeWhile each ((List.prefix_append _ _).trans behind)
    simp only [List.length_nil]
    omega
  · obtain ⟨after, rfl⟩ := behind
    have ends : ∀ c ∈ (tail ++ after).head?, isDigit c = false := by
      obtain ⟨mark, others, rfl⟩ := List.exists_cons_of_ne_nil (exponent_ne_nil spelled)
      exact fun c here => (ends_exponent .real spelled c here).1
    obtain ⟨taken, left⟩ := span_run each ends
    rw [← List.append_assoc] at taken left
    have longer := exponent.most tail (.inr spelled) (by rw [left]; exact List.prefix_append _ _)
    rw [taken]
    omega

theorem not_fraction_of_fractionText? {rest : List Char}
    (none : fractionText? ('.' :: rest) = none) : ∀ other ∈ fraction, ¬other <+: '.' :: rest := by
  intro other within stands
  obtain ⟨digits, tail, written, -, rfl⟩ := mem_fraction.mp within
  obtain ⟨-, behind⟩ := List.cons_prefix_cons.mp stands
  obtain ⟨filled, each⟩ := mem_run.mp written
  have run := length_le_takeWhile each ((List.prefix_append _ _).trans behind)
  have some := List.length_pos_of_ne_nil filled
  unfold fractionText? at none
  simp only [Decimal.splitFraction, List.span_eq_takeWhile_dropWhile] at none
  split at none
  · rename_i empty
    rw [List.isEmpty_iff.mp empty, List.length_nil] at run
    omega
  · cases none

end Reckon.Lexeme
