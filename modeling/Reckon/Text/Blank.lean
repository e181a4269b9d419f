/- Reckon.Text.Blank — blank characters and the words between them

`isBlank` is the Unicode property White_Space: twenty-five code points, of
which only six are ASCII.  `words` cuts a text at its blanks.  A word is a
longest run without one, so no word is empty and neighbouring blanks make no
word between them.
-/

namespace Reckon.Text
set_option autoImplicit false

/-- The first and last code points of the ranges that have the White_Space
property. -/
def blankRanges : List (Nat × Nat) :=
  [(0x09, 0x0d), (0x20, 0x20), (0x85, 0x85), (0xa0, 0xa0), (0x1680, 0x1680),
   (0x2000, 0x200a), (0x2028, 0x2029), (0x202f, 0x202f), (0x205f, 0x205f),
   (0x3000, 0x3000)]

/-- Whether a character has the White_Space property. -/
def isBlank (c : Char) : Bool :=
  blankRanges.any fun (first, last) => first ≤ c.toNat && c.toNat ≤ last

/-- Puts a run in front of the words found after it, unless it is empty. -/
def closeRun (run : List Char) (words : List (List Char)) : List (List Char) :=
  if run.isEmpty then words else run :: words

/-- The run that starts at the front of a text, and the words after it. -/
def runs (source : List Char) : List Char × List (List Char) :=
  source.foldr
    (fun c (run, words) => if isBlank c then ([], closeRun run words) else (c :: run, words))
    ([], [])

/-- The words of a text, in order. -/
def words (source : List Char) : List (List Char) :=
  closeRun (runs source).1 (runs source).2

theorem words_nil : words [] = [] := rfl

/-- A blank in front makes no difference. -/
theorem words_cons_blank (c : Char) (source : List Char) (blank : isBlank c = true) :
    words (c :: source) = words source := by
  simp [words, runs, blank, closeRun]

/-- A character that is no blank joins the run behind it. -/
theorem words_cons (c : Char) (source : List Char) (solid : isBlank c = false) :
    words (c :: source) = (c :: (runs source).1) :: (runs source).2 := by
  simp [words, runs, solid, closeRun]

theorem closeRun_append (run : List Char) (words words' : List (List Char)) :
    closeRun run (words ++ words') = closeRun run words ++ words' := by
  cases run <;> rfl

/-- A blank ends the words before it and has no part in those behind it. -/
theorem runs_append_blank (source : List Char) (c : Char) (rest : List Char)
    (blank : isBlank c = true) :
    runs (source ++ c :: rest) = ((runs source).1, (runs source).2 ++ words rest) := by
  induction source with
  | nil => simp [runs, words, blank]
  | cons d source ih =>
      have step : ∀ tail : List Char, runs (d :: tail) =
          if isBlank d then ([], closeRun (runs tail).1 (runs tail).2)
          else (d :: (runs tail).1, (runs tail).2) := fun _ => rfl
      rw [List.cons_append, step, step, ih]
      cases isBlank d
      · rfl
      · simp [closeRun_append]

/-- The words of a text that is cut at a blank are those of its two parts. -/
theorem words_append_blank (source : List Char) (c : Char) (rest : List Char)
    (blank : isBlank c = true) :
    words (source ++ c :: rest) = words source ++ words rest := by
  rw [words, runs_append_blank source c rest blank, closeRun_append, ← words]

end Reckon.Text
