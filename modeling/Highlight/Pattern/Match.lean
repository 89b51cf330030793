/-
# Searching a text

A search looks at the offsets of a text from left to right and reports the
first one at which the pattern matches.  Anchors and look-behinds see the text
to the left of the offset where the search began.

A *match* is what a search reports to a rule.  A rule may declare that its
first capture is only context to the left: the match then begins where that
capture ends, and the captured text is dropped from its front.
-/

import Highlight.Pattern.Matcher

namespace Highlight

/-- What a search finds: where the pattern matched, up to where, and what its
groups captured. -/
structure Hit where
  start : Nat
  stop : Nat
  captures : List (Option Text)
  deriving DecidableEq, Repr

/-- A match as a rule sees it: the offset where it begins, its text, and what
the groups of the pattern captured. -/
structure Match where
  index : Nat
  text : Text
  groups : List (Option Text)
  deriving DecidableEq, Repr

/-- The offset where a match ends. -/
def Match.stop (m : Match) : Nat :=
  m.index + m.text.length

namespace Pattern

/-- The match of a pattern at one offset, with the text to its left given
nearest character first. -/
def hitAt? (p : Pattern) (before after : Text) (offset : Nat) : Option Hit :=
  (p.tree.run p.flags ⟨before, after, offset, List.replicate p.groups none⟩ some).map
    fun s => ⟨offset, s.offset, s.captures⟩

/-- The first match at or after an offset. -/
def seek? (p : Pattern) (before : Text) (offset : Nat) : Text → Option Hit
  | [] => p.hitAt? before [] offset
  | c :: after =>
    match p.hitAt? before (c :: after) offset with
    | some hit => some hit
    | none => seek? p (c :: before) (offset + 1) after

/-- The first match in a text from an offset on.  An offset beyond the end is
read as the end. -/
def search? (p : Pattern) (text : Text) (offset : Nat) : Option Hit :=
  let start := min offset text.length
  p.seek? (text.take start).reverse start (text.drop start)

/-- The match that a rule sees.  With `lookbehind`, the first capture is
context: the match begins after it. -/
def find? (p : Pattern) (text : Text) (offset : Nat) (lookbehind : Bool) : Option Match :=
  match p.search? text offset with
  | none => none
  | some hit =>
    let context : Text := if lookbehind then (hit.captures.head?.join).getD [] else []
    some ⟨hit.start + context.length,
      (text.slice hit.start hit.stop).drop context.length, hit.captures⟩

/-- The match that a rule sees from any offset.  An offset before the start
is read as the start. -/
def findFrom? (p : Pattern) (text : Text) (offset : Int) (lookbehind : Bool) : Option Match :=
  p.find? text offset.toNat lookbehind

end Pattern
end Highlight
