/-
# Chunks

The tokenizer cuts a text into chunks.  A chunk is plain text that no rule
claimed, or a token: a piece of text with a tag.  What a token holds is the
text itself (`leaf`) or, when a nested grammar cut it further, a list of
chunks (`node`).

A tag carries the type that the grammar gave the token, a name that
overrides the type for display, and the number of characters covered.  The
length is part of the tag and need not agree with the contents of a chunk that
was put together by hand; for the chunks of the tokenizer it does.
-/

import Highlight.Text.Basic

namespace Highlight

/-- The label of a token. -/
structure Tag where
  type : String
  display : Option String := none
  length : Int := 0
  deriving DecidableEq, Repr

/-- What a token is displayed as: its display name or else its type. -/
def Tag.category (t : Tag) : String :=
  t.display.getD t.type

/-- A piece of a text that has been cut by a grammar. -/
inductive Chunk where
  /-- Text that no rule claimed. -/
  | plain (text : Text)
  /-- A token that holds its text. -/
  | leaf (tag : Tag) (text : Text)
  /-- A token whose text a nested grammar has cut into parts. -/
  | node (tag : Tag) (parts : List Chunk)
  deriving Repr

namespace Chunk

/-- The tag of a token. -/
def tag? : Chunk → Option Tag
  | .plain _ => none
  | .leaf tag _ | .node tag _ => some tag

/-- Whether a chunk is a token. -/
def isToken : Chunk → Bool
  | .plain _ => false
  | .leaf .. | .node .. => true

/-- Whether a nested grammar has cut the chunk further. -/
def isNested : Chunk → Bool
  | .node .. => true
  | .plain _ | .leaf .. => false

/-- The number of characters a chunk covers. -/
def length : Chunk → Int
  | .plain text => text.length
  | .leaf tag _ | .node tag _ => tag.length

/-- The length as a distance to walk; no chunk is walked backwards. -/
def extent (c : Chunk) : Nat :=
  c.length.toNat

mutual

/-- The text of a chunk, that of its parts joined. -/
def text : Chunk → Text
  | .plain text => text
  | .leaf _ text => text
  | .node _ parts => textOf parts

/-- The text of a list of chunks. -/
def textOf : List Chunk → Text
  | [] => []
  | c :: rest => c.text ++ textOf rest

end

mutual

/-- The tokens of a chunk: itself, if it is one, then those of its parts. -/
def tokens : Chunk → List Chunk
  | .plain _ => []
  | .leaf tag text => [.leaf tag text]
  | .node tag parts => .node tag parts :: tokensOf parts

/-- The tokens of a list of chunks, from left to right, each before its
parts. -/
def tokensOf : List Chunk → List Chunk
  | [] => []
  | c :: rest => c.tokens ++ tokensOf rest

end

mutual

/-- Whether two chunks agree in kind, tag and contents. -/
def same : Chunk → Chunk → Bool
  | .plain s, .plain t => s == t
  | .leaf a s, .leaf b t => a == b && s == t
  | .node a ps, .node b qs => a == b && sameList ps qs
  | _, _ => false

/-- Whether two lists of chunks agree one by one. -/
def sameList : List Chunk → List Chunk → Bool
  | [], [] => true
  | c :: cs, d :: ds => c.same d && sameList cs ds
  | _, _ => false

end

mutual

/-- Agreement is equality. -/
theorem same_iff_eq : ∀ c d : Chunk, c.same d = true ↔ c = d
  | .plain _, .plain _ => by simp [same]
  | .leaf _ _, .leaf _ _ => by simp [same]
  | .node a ps, .node b qs => by
    rw [same, Bool.and_eq_true, beq_iff_eq, sameList_iff_eq ps qs, Chunk.node.injEq]
  | .plain _, .leaf _ _ | .plain _, .node _ _ | .leaf _ _, .plain _
  | .leaf _ _, .node _ _ | .node _ _, .plain _ | .node _ _, .leaf _ _ => by simp [same]

/-- Agreement of lists is equality. -/
theorem sameList_iff_eq : ∀ cs ds : List Chunk, sameList cs ds = true ↔ cs = ds
  | [], [] => by simp [sameList]
  | [], _ :: _ | _ :: _, [] => by simp [sameList]
  | c :: cs, d :: ds => by
    rw [sameList, Bool.and_eq_true, same_iff_eq c d, sameList_iff_eq cs ds, List.cons.injEq]

end

instance : DecidableEq Chunk := fun c d =>
  decidable_of_iff (c.same d = true) (same_iff_eq c d)

/-- The text of two lists of chunks is the text of one and then the other. -/
@[simp] theorem textOf_append (cs ds : List Chunk) :
    textOf (cs ++ ds) = textOf cs ++ textOf ds := by
  induction cs with
  | nil => rfl
  | cons c cs ih => rw [List.cons_append, textOf, textOf, ih, List.append_assoc]

/-- The tokens of two lists of chunks are those of one and then the other. -/
@[simp] theorem tokensOf_append (cs ds : List Chunk) :
    tokensOf (cs ++ ds) = tokensOf cs ++ tokensOf ds := by
  induction cs with
  | nil => rfl
  | cons c cs ih => rw [List.cons_append, tokensOf, tokensOf, ih, List.append_assoc]

end Chunk
end Highlight
