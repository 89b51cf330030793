/-
# Pattern trees

The meaning of a pattern's source text: a tree of sequences, alternatives,
repeats, groups and assertions over sets of characters.  The flags are given
to a tree when it is matched; a tree knows only how parts of it change them.

The *width* of a tree is the least and the greatest number of characters that
it can consume.  A look-behind is entered as many characters to the left as
its body is wide, so its body needs a fixed width.
-/

import Highlight.Pattern.CharSet

namespace Highlight
namespace Pattern

/-- Conditions on a position that consume nothing. -/
inductive Anchor where
  /-- The very start of the text. -/
  | textStart
  /-- The start of the text or, with `multiline`, of a line. -/
  | lineStart
  /-- The very end of the text. -/
  | textEnd
  /-- The end of the text or before its last line feed or, with `multiline`,
  before any line feed. -/
  | lineEnd
  /-- Between a word character and another character or an end. -/
  | boundary
  /-- Not between a word character and another character or an end. -/
  | inner
  deriving DecidableEq, Repr

/-- The three ways of repeating: as often as possible, as rarely as possible,
or as often as possible with no way back. -/
inductive Greed where
  | greedy
  | lazy
  | possessive
  deriving DecidableEq, Repr

/-- A pattern tree. -/
inductive Tree where
  /-- Consumes nothing. -/
  | empty
  /-- One character: any but the line feed, or with `dotAll` any. -/
  | any
  /-- One character of a set. -/
  | set (set : CharSet)
  /-- A condition on the position. -/
  | anchor (anchor : Anchor)
  /-- The text that a group has captured. -/
  | reference (group : Nat)
  /-- One tree, then another. -/
  | seq (first second : Tree)
  /-- One tree or, failing that, another. -/
  | alt (first second : Tree)
  /-- A tree whose text is captured under a number, counted from 1. -/
  | group (index : Nat) (body : Tree)
  /-- A tree that has to match ahead of the position or, given a width,
  behind it; or that must not. -/
  | look (behind : Option Nat) (negated : Bool) (body : Tree)
  /-- A tree with no way back into the choices made in it. -/
  | atomic (body : Tree)
  /-- A tree under changed flags. -/
  | under (change : Change) (body : Tree)
  /-- One tree if a group has captured something, else another. -/
  | conditional (group : Nat) (captured otherwise : Tree)
  /-- A tree at least `least` and at most `most` times. -/
  | rep (greed : Greed) (least : Nat) (most : Option Nat) (body : Tree)
  deriving DecidableEq, Repr

namespace Tree

/-- Trees one after the other. -/
def sequence : List Tree → Tree
  | [] => .empty
  | [t] => t
  | t :: ts => .seq t (sequence ts)

/-- Trees as alternatives, the first one preferred. -/
def choice : List Tree → Tree
  | [] => .empty
  | [t] => t
  | t :: ts => .alt t (choice ts)

end Tree

/-- How many characters a tree can consume; `most` is `none` when there is no
upper bound. -/
structure Width where
  least : Nat := 0
  most : Option Nat := some 0
  deriving DecidableEq, Repr

namespace Width

/-- The width of exactly one character. -/
def one : Width where
  least := 1
  most := some 1

/-- The width of one tree after another. -/
def add (v w : Width) : Width where
  least := v.least + w.least
  most := match v.most, w.most with
    | some a, some b => some (a + b)
    | _, _ => none

/-- The width of one tree or another. -/
def join (v w : Width) : Width where
  least := min v.least w.least
  most := match v.most, w.most with
    | some a, some b => some (max a b)
    | _, _ => none

/-- The width of a repeated tree.  Nothing repeated without bound is still
nothing, and so is anything repeated no time. -/
def times (w : Width) (least : Nat) (most : Option Nat) : Width where
  least := w.least * least
  most := match w.most, most with
    | some a, some b => some (a * b)
    | some 0, none => some 0
    | none, some 0 => some 0
    | _, _ => none

/-- The widths from this one on are not told apart. -/
def limit : Nat := 0xffffffff

/-- The number of characters, if it is always the same and below the limit. -/
def fixed? (w : Width) : Option Nat :=
  if w.most = some w.least ∧ w.least < limit then some w.least else none

end Width
end Pattern
end Highlight
