/-
# Classes of code points by their runs

A class of code points is written down as the increasing list of its run
boundaries: first code point of a run, first code point after it, and so on.
The tables of the classes of `Highlight.Text` are such lists.
-/

import Highlight.Text.Basic

namespace Highlight
namespace Text

/-- Whether a code point lies in a run of the table.  A last boundary without
a partner opens a run that never ends. -/
def inRuns : List Nat → Nat → Bool
  | [], _ => false
  | [first], n => first ≤ n
  | first :: after :: rest, n => if n < after then decide (first ≤ n) else inRuns rest n

/-- Below the first boundary nothing is in the class. -/
theorem inRuns_eq_false_of_lt {first n : Nat} {rest : List Nat}
    (hchain : ∀ m ∈ rest.head?, first < m) (h : n < first) :
    inRuns (first :: rest) n = false := by
  cases rest with
  | nil => simp [inRuns]; omega
  | cons after rest =>
    have := hchain after (by simp)
    simp [inRuns, show n < after by omega]
    omega

end Text
end Highlight
