/-
# Highlight ranges

A display places the chunks of a text one after the other and styles each
token by its category.  Plain text moves the offset on and gets no range, and
neither do the parts of a token.
-/

import Highlight.Chunk.Basic

namespace Highlight

/-- The offsets from `start` up to, not including, `stop`, with the category
they are displayed in. -/
structure Range where
  start : Int
  stop : Int
  category : String
  deriving DecidableEq, Repr

namespace Range

/-- The number of characters in a range. -/
def length (r : Range) : Int :=
  r.stop - r.start

/-- The ranges of a list of chunks whose first one stands at an offset. -/
def ofChunks (offset : Int) : List Chunk → List Range
  | [] => []
  | c :: rest =>
    match c.tag? with
    | none => ofChunks (offset + c.length) rest
    | some tag =>
      ⟨offset, offset + c.length, tag.category⟩ :: ofChunks (offset + c.length) rest

/-- There is one range for each token of the list. -/
theorem length_ofChunks (offset : Int) (chunks : List Chunk) :
    (ofChunks offset chunks).length = chunks.countP Chunk.isToken := by
  induction chunks generalizing offset with
  | nil => rfl
  | cons c rest ih => cases c <;> simp [ofChunks, Chunk.tag?, Chunk.isToken, List.countP_cons, ih]

end Range
end Highlight
