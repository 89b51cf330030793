/-
# Texts

A text is the list of its code points.  Every length and every offset of the
library counts code points, so the length of a text is the length of the
list, and cutting a text is cutting the list.  The surrogates, which are code
points but not characters, are in no text.
-/

namespace Highlight

/-- A text, as the list of its code points. -/
abbrev Text := List Char

namespace Text

/-- The part of a text from offset `start` up to, not including, offset
`stop`.  Offsets beyond the end are read as the end. -/
def slice (s : Text) (start stop : Nat) : Text :=
  (s.take stop).drop start

/-- A slice is as long as its two ends, cut down to the text, are apart. -/
theorem length_slice (s : Text) (start stop : Nat) :
    (s.slice start stop).length = min stop s.length - start := by
  simp [slice]

/-- The slice over the whole text is the text. -/
theorem slice_zero_length (s : Text) : s.slice 0 s.length = s := by
  simp [slice]

end Text
end Highlight
