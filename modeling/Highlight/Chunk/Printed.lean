/-
# Printed chunks

A short form of a chunk for people to read: plain text between quotes, a token
by its type, its display name and its contents.  Contents of more than twenty
characters are cut after seventeen; parts are only counted.
-/

import Highlight.Chunk.Basic
import Highlight.Text.Quoted

namespace Highlight

/-- The type of a tag, and its display name if there is one. -/
def Tag.printed (t : Tag) : String :=
  match t.display with
  | none => t.type
  | some display => t.type ++ " as " ++ display

namespace Chunk

/-- A text of at most twenty characters, or the first seventeen and three
dots. -/
def excerpt (s : Text) : Text :=
  if 20 < s.length then s.take 17 ++ ['.', '.', '.'] else s

/-- An excerpt is never longer than twenty characters. -/
theorem length_excerpt_le (s : Text) : (excerpt s).length ≤ 20 := by
  unfold excerpt
  split
  · simp only [List.length_append, List.length_take, List.length_cons, List.length_nil]
    omega
  · omega

/-- The printed form of a chunk. -/
def printed : Chunk → String
  | .plain s => String.ofList s.quoted
  | .leaf tag s => "Token(" ++ tag.printed ++ ", " ++ String.ofList (excerpt s).quoted ++ ")"
  | .node tag parts => "Token(" ++ tag.printed ++ ", <" ++ toString parts.length ++ " chunks>)"

end Chunk
end Highlight
