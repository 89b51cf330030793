/-
# Blank characters

Two readings of "blank".  The narrow one has the six ASCII characters space,
tab, line feed, carriage return, form feed and vertical tab.  The wide one
adds the separators of Unicode (Zs, Zl, Zp) and the control characters that
act as separators, among them the four information separators U+001C to
U+001F and U+0085.
-/

import Highlight.Text.Runs

namespace Highlight
namespace Text

/-- The runs of blank characters in the wide reading. -/
def blankRuns : List Nat := [
  0x9, 0xe, 0x1c, 0x21, 0x85, 0x86, 0xa0, 0xa1, 0x1680, 0x1681, 0x2000, 0x200b, 0x2028, 0x202a,
  0x202f, 0x2030, 0x205f, 0x2060, 0x3000, 0x3001]

/-- Blank characters in the wide reading. -/
def isBlank (c : Char) : Bool :=
  inRuns blankRuns c.toNat

/-- Blank characters in the narrow reading. -/
def isAsciiBlank (c : Char) : Bool :=
  c == ' ' || (9 ≤ c.toNat && c.toNat ≤ 13)

/-- The narrow reading is part of the wide one. -/
theorem isBlank_of_isAsciiBlank {c : Char} (h : isAsciiBlank c = true) : isBlank c = true := by
  simp only [isAsciiBlank, Bool.or_eq_true, beq_iff_eq, Bool.and_eq_true,
    decide_eq_true_eq] at h
  rcases h with rfl | ⟨h₁, h₂⟩
  · decide
  · simp [isBlank, blankRuns, inRuns, show c.toNat < 14 by omega, h₁]

end Text
end Highlight
