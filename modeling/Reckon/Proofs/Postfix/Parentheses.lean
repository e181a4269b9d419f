/- Reckon.Proofs.Postfix.Parentheses — which parentheses belong together

Sequences are reordered whatever their parentheses do, so which of them belong
together is said for all sequences.  An opening parenthesis is matched by the
first closing one that has a balanced part before it (`Closes`); `unopened` and
`unclosed` count those of either kind that are left over, and a sequence is
balanced if nothing is (`balanced_iff`).

A scan that counts up at every opening and down at every closing parenthesis,
though never below zero, ends with the number of unclosed ones
(`foldl_nest_zero`).  It is the number of opening parentheses on the stack of
the reordering.  The highest count on the way is how deep parentheses are nested
(`deepest`).
-/
import Mathlib.Tactic
import Reckon.Token

namespace Reckon.Postfix
set_option autoImplicit false

/-- Every parenthesis is matched by one of the sequence. -/
inductive Balanced : List Token → Prop where
  | nil : Balanced []
  | other {token : Token} {rest : List Token} (notLeft : token ≠ .leftParen)
      (notRight : token ≠ .rightParen) (others : Balanced rest) : Balanced (token :: rest)
  | group {inner rest : List Token} (inside : Balanced inner) (others : Balanced rest) :
      Balanced (.leftParen :: (inner ++ .rightParen :: rest))

/-- What follows an opening parenthesis closes it. -/
def Closes (rest : List Token) : Prop :=
  ∃ inner after, rest = inner ++ .rightParen :: after ∧ Balanced inner

/-- How many closing parentheses match no opening one. -/
def unopened : List Token → Nat
  | [] => 0
  | .leftParen :: rest => unopened rest - 1
  | .rightParen :: rest => unopened rest + 1
  | _ :: rest => unopened rest

theorem unopened_other {token : Token} (notLeft : token ≠ .leftParen)
    (notRight : token ≠ .rightParen) (rest : List Token) :
    unopened (token :: rest) = unopened rest := by
  cases token with
  | leftParen => exact absurd rfl notLeft
  | rightParen => exact absurd rfl notRight
  | _ => rfl

theorem Balanced.unopened_append {inner : List Token} (balanced : Balanced inner)
    (rest : List Token) : unopened (inner ++ rest) = unopened rest := by
  induction balanced generalizing rest with
  | nil => rfl
  | other notLeft notRight _ ih => rw [List.cons_append, unopened_other notLeft notRight, ih]
  | @group inner others _ _ ihInner ihOthers =>
    rw [List.cons_append, List.append_assoc, List.cons_append, unopened, ihInner, unopened,
      ihOthers, Nat.add_sub_cancel]

/-- An opening parenthesis is closed by what follows exactly if a closing one is
left over there. -/
theorem closes_iff (rest : List Token) : Closes rest ↔ 0 < unopened rest := by
  constructor
  · rintro ⟨inner, after, rfl, balanced⟩
    rw [balanced.unopened_append]
    exact Nat.succ_pos _
  · intro positive
    -- On the length: behind an inner opening parenthesis and its match the search goes on.
    induction length : rest.length using Nat.strong_induction_on generalizing rest with
    | _ n ih =>
    subst length
    cases rest with
    | nil => cases positive
    | cons token rest =>
      by_cases left : token = .leftParen
      · subst left
        have two : 1 < unopened rest := Nat.lt_of_sub_pos positive
        obtain ⟨inner, after, rfl, balanced⟩ := ih rest.length (by simp) rest (by omega) rfl
        rw [balanced.unopened_append, unopened] at two
        obtain ⟨others, last, rfl, balanced'⟩ :=
          ih after.length (by simp; omega) after (by omega) rfl
        exact ⟨.leftParen :: (inner ++ .rightParen :: others), last, by simp,
          .group balanced balanced'⟩
      by_cases right : token = .rightParen
      · subst right
        exact ⟨[], rest, rfl, .nil⟩
      · rw [unopened_other left right] at positive
        obtain ⟨inner, after, rfl, balanced⟩ := ih rest.length (by simp) rest positive rfl
        exact ⟨token :: inner, after, rfl, .other left right balanced⟩

instance : DecidablePred Closes := fun rest => decidable_of_iff _ (closes_iff rest).symm

/-- How many opening parentheses no closing one matches. -/
def unclosed : List Token → Nat
  | [] => 0
  | .leftParen :: rest => (if Closes rest then 0 else 1) + unclosed rest
  | _ :: rest => unclosed rest

theorem unclosed_other {token : Token} (notLeft : token ≠ .leftParen) (rest : List Token) :
    unclosed (token :: rest) = unclosed rest := by
  cases token with
  | leftParen => exact absurd rfl notLeft
  | _ => rfl

theorem unclosed_le_append (before after : List Token) :
    unclosed after ≤ unclosed (before ++ after) := by
  induction before with
  | nil => exact Nat.le_refl _
  | cons token before ih =>
    by_cases left : token = .leftParen
    · subst left
      exact Nat.le_trans ih (Nat.le_add_left _ _)
    · rwa [List.cons_append, unclosed_other left]

/-! ## The scan -/

/-- How many parentheses are open behind a token. -/
def nest (depth : Nat) : Token → Nat
  | .leftParen => depth + 1
  | .rightParen => depth - 1
  | _ => depth

/-- Closing parentheses that are left over close what was open before; opening
ones that are left over stay open. -/
theorem foldl_nest (tokens : List Token) (depth : Nat) :
    tokens.foldl nest depth = (depth - unopened tokens) + unclosed tokens := by
  induction tokens generalizing depth with
  | nil => rfl
  | cons token rest ih =>
    rw [List.foldl_cons, ih]
    cases token with
    | leftParen =>
      rw [unopened, unclosed, nest]
      split
      case isTrue closes =>
        have positive := (closes_iff rest).mp closes
        omega
      case isFalse notCloses =>
        have none : ¬0 < unopened rest := fun positive => notCloses ((closes_iff rest).mpr positive)
        omega
    | rightParen =>
      have other : Token.rightParen ≠ .leftParen := nofun
      rw [unopened, unclosed_other other, nest, Nat.sub_sub, Nat.add_comm 1]
    | value x => rfl
    | operation op => rfl

theorem foldl_nest_zero (tokens : List Token) : tokens.foldl nest 0 = unclosed tokens := by
  rw [foldl_nest, Nat.zero_sub, Nat.zero_add]

theorem unclosed_concat (tokens : List Token) (token : Token) :
    unclosed (tokens ++ [token]) = nest (unclosed tokens) token := by
  rw [← foldl_nest_zero, List.foldl_append, foldl_nest_zero, List.foldl_cons, List.foldl_nil]

theorem Balanced.foldl_nest {tokens : List Token} (balanced : Balanced tokens) (depth : Nat) :
    tokens.foldl nest depth = depth := by
  induction balanced generalizing depth with
  | nil => rfl
  | @other token _ notLeft notRight _ ih =>
    rw [List.foldl_cons, ih]
    cases token with
    | leftParen => exact absurd rfl notLeft
    | rightParen => exact absurd rfl notRight
    | _ => rfl
  | group _ _ ihInner ihOthers =>
    rw [List.foldl_cons, List.foldl_append, ihInner, List.foldl_cons, ihOthers]
    rfl

/-- A sequence is balanced exactly if no parenthesis of either kind is left over. -/
theorem balanced_iff (tokens : List Token) :
    Balanced tokens ↔ unopened tokens = 0 ∧ unclosed tokens = 0 := by
  constructor
  · intro balanced
    refine ⟨?_, ?_⟩
    · rw [← List.append_nil tokens, balanced.unopened_append]
      rfl
    · rw [← foldl_nest_zero, balanced.foldl_nest]
  · rintro ⟨opened, closed⟩
    induction length : tokens.length using Nat.strong_induction_on generalizing tokens with
    | _ n ih =>
    subst length
    cases tokens with
    | nil => exact .nil
    | cons token rest =>
      by_cases left : token = .leftParen
      · subst left
        rw [unclosed] at closed
        have closes : Closes rest := by
          by_contra notCloses
          rw [if_neg notCloses] at closed
          omega
        obtain ⟨inner, after, rfl, balanced⟩ := closes
        rw [unopened, balanced.unopened_append, unopened] at opened
        have fewer := unclosed_le_append (inner ++ [.rightParen]) after
        rw [List.append_assoc, List.singleton_append] at fewer
        exact .group balanced (ih after.length (by simp; omega) after (by omega) (by omega) rfl)
      by_cases right : token = .rightParen
      · subst right
        cases opened
      · rw [unopened_other left right] at opened
        rw [unclosed_other left] at closed
        exact .other left right (ih rest.length (by simp) rest opened closed rfl)

instance : DecidablePred Balanced := fun tokens => decidable_of_iff _ (balanced_iff tokens).symm

theorem Balanced.append {first second : List Token} (left : Balanced first)
    (right : Balanced second) : Balanced (first ++ second) := by
  induction left with
  | nil => exact right
  | other notLeft notRight _ ih => exact .other notLeft notRight ih
  | group inside _ _ ihOthers =>
    rw [List.cons_append, List.append_assoc, List.cons_append]
    exact .group inside ihOthers

/-- A balanced sequence closes nothing that was open before it. -/
theorem Balanced.not_closes {tokens : List Token} (balanced : Balanced tokens) :
    ¬Closes tokens := by
  rw [closes_iff, ((balanced_iff tokens).mp balanced).1]
  exact Nat.lt_irrefl 0

/-- What opens in a balanced sequence is closed there. -/
theorem Balanced.closes {before rest : List Token}
    (balanced : Balanced (before ++ .leftParen :: rest)) : Closes rest := by
  by_contra notCloses
  have fewer := unclosed_le_append before (.leftParen :: rest)
  rw [((balanced_iff _).mp balanced).2, unclosed, if_neg notCloses] at fewer
  omega

/-! ## Depth -/

/-- How many parentheses are open at most, here or behind a token, `depth` of them here. -/
def deepest (depth : Nat) : List Token → Nat
  | [] => depth
  | token :: rest => max depth (deepest (nest depth token) rest)

theorem le_deepest (depth : Nat) (tokens : List Token) : depth ≤ deepest depth tokens := by
  cases tokens with
  | nil => exact Nat.le_refl _
  | cons token rest => exact Nat.le_max_left _ _

theorem deepest_append (depth : Nat) (before after : List Token) :
    deepest depth (before ++ after) =
      max (deepest depth before) (deepest (before.foldl nest depth) after) := by
  induction before generalizing depth with
  | nil => exact (Nat.max_eq_right (le_deepest depth after)).symm
  | cons token before ih =>
    rw [List.cons_append, deepest, ih, deepest, Nat.max_assoc]
    rfl

/-- What is open around a balanced sequence only adds to its depth. -/
theorem Balanced.deepest {tokens : List Token} (balanced : Balanced tokens) (depth : Nat) :
    deepest depth tokens = depth + deepest 0 tokens := by
  induction balanced generalizing depth with
  | nil => rfl
  | @other token rest notLeft notRight _ ih =>
    have stays (depth : Nat) : nest depth token = depth := by
      cases token with
      | leftParen => exact absurd rfl notLeft
      | rightParen => exact absurd rfl notRight
      | _ => rfl
    rw [Postfix.deepest, stays, ih, Postfix.deepest, stays]
    omega
  | @group inner others inside outside ihInner ihOthers =>
    have whole (depth : Nat) : Postfix.deepest depth (.leftParen :: (inner ++ .rightParen :: others))
        = max (depth + 1 + Postfix.deepest 0 inner) (depth + Postfix.deepest 0 others) := by
      rw [Postfix.deepest, deepest_append, inside.foldl_nest, nest, ihInner, Postfix.deepest, nest,
        Nat.add_sub_cancel, ihOthers]
      omega
    rw [whole, whole]
    omega

theorem Balanced.deepest_append {first second : List Token} (left : Balanced first) :
    Postfix.deepest 0 (first ++ second) =
      max (Postfix.deepest 0 first) (Postfix.deepest 0 second) := by
  rw [Postfix.deepest_append, left.foldl_nest]

/-- Parentheses around a balanced sequence make it one level deeper. -/
theorem Balanced.deepest_enclosed {inner : List Token} (inside : Balanced inner) :
    Postfix.deepest 0 (.leftParen :: (inner ++ [.rightParen])) = Postfix.deepest 0 inner + 1 := by
  rw [Postfix.deepest, Postfix.deepest_append, inside.foldl_nest, inside.deepest, nest]
  simp only [Postfix.deepest, nest]
  omega

end Reckon.Postfix
