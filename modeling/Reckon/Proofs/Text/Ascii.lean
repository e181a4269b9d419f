/- Reckon.Proofs.Text.Ascii — how many bytes a text has

A character takes one byte of UTF-8 if it is ASCII, and more if it is not.  So a text has at
least as many bytes as characters, and as many exactly where all of them are ASCII
(`utf8Len_of_ascii`), which digits are.
-/
import Mathlib
import Reckon.Decimal.Text

namespace Reckon.Text
set_option autoImplicit false

theorem utf8Size_of_le {c : Char} (small : c ≤ '\x7f') : c.utf8Size = 1 := if_pos small

theorem utf8Size_of_isDigit (c : Char) (digit : Decimal.isDigit c = true) : c.utf8Size = 1 := by
  have range : '0' ≤ c ∧ c ≤ '9' := by simpa [Decimal.isDigit] using digit
  exact utf8Size_of_le (Char.le_trans range.2 (by decide))

theorem length_le_utf8Len (text : List Char) : text.length ≤ String.utf8Len text := by
  induction text with
  | nil => exact Nat.le_refl _
  | cons c text ih =>
    have positive := c.utf8Size_pos
    rw [String.utf8Len_cons, List.length_cons]
    omega

theorem utf8Len_of_ascii {text : List Char} (each : ∀ c ∈ text, c.utf8Size = 1) :
    String.utf8Len text = text.length := by
  induction text with
  | nil => rfl
  | cons c text ih =>
    obtain ⟨one, others⟩ := List.forall_mem_cons.mp each
    rw [String.utf8Len_cons, one, ih others, List.length_cons]

theorem utf8Len_replicate {c : Char} (ascii : c.utf8Size = 1) (count : Nat) :
    String.utf8Len (List.replicate count c) = count := by
  rw [utf8Len_of_ascii, List.length_replicate]
  intro other member
  rw [List.eq_of_mem_replicate member, ascii]

end Reckon.Text
