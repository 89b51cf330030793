/-
# Sets of characters

What one position of a pattern accepts: a set of characters, given by ranges
of code points and by categories, possibly negated.  Whether a character is
in a set depends on the flags of the pattern in two ways.

  * With `ascii` the categories are those of the ASCII range and only ASCII
    letters have case variants; without it both follow Unicode.
  * With `ignoreCase` a range accepts a character when it contains one of the
    character's case variants, and a category is asked about the lower-case
    form.  A negated set turns the answer around at the very end.
-/

import Highlight.Text.Word
import Highlight.Text.Digit
import Highlight.Text.Blank
import Highlight.Pattern.Flags

namespace Highlight
namespace Pattern

/-- The three named classes of characters. -/
inductive Category where
  | digit
  | blank
  | word
  deriving DecidableEq, Repr

/-- Whether a character belongs to a category, in the ASCII or the Unicode
reading. -/
def Category.holds (ascii : Bool) : Category → Char → Bool
  | .digit, c => if ascii then c.isDigit else Text.isDecimal c
  | .blank, c => if ascii then Text.isAsciiBlank c else Text.isBlank c
  | .word, c => if ascii then Text.isAsciiWord c else Text.isWord c

/-- One member of the list between square brackets. -/
inductive Item where
  | range (first last : Nat)
  | category (kind : Category) (negated : Bool)
  deriving DecidableEq, Repr

/-- Whether an item accepts a character. -/
def Item.accepts (flags : Flags) : Item → Char → Bool
  | .range first last, c => (flags.variants c).any fun n => first ≤ n && n ≤ last
  | .category kind negated, c => kind.holds flags.ascii (flags.fold c) != negated

/-- A set of characters: those that some item accepts, or, when negated,
those that none does. -/
structure CharSet where
  negated : Bool := false
  items : List Item
  deriving DecidableEq, Repr

namespace CharSet

/-- The set of one code point. -/
def single (n : Nat) : CharSet where
  items := [.range n n]

/-- The set of a category, or of all characters outside it. -/
def ofCategory (kind : Category) (negated : Bool) : CharSet where
  items := [.category kind negated]

/-- Whether a set accepts a character. -/
def accepts (flags : Flags) (s : CharSet) (c : Char) : Bool :=
  (s.items.any fun item => item.accepts flags c) != s.negated

/-- With no case to ignore, the set of one code point accepts that character
alone. -/
theorem accepts_single {flags : Flags} (h : flags.ignoreCase = false) (c d : Char) :
    (single c.toNat).accepts flags d = true ↔ d = c := by
  have hcd : c.toNat ≤ d.toNat ∧ d.toNat ≤ c.toNat ↔ d = c := by
    refine ⟨fun hle => ?_, fun heq => by simp [heq]⟩
    exact Char.ext (UInt32.toNat_inj.mp (Nat.le_antisymm hle.2 hle.1))
  simpa [accepts, single, Item.accepts, Flags.variants, h] using hcd

end CharSet
end Pattern
end Highlight
