/-
# Matching a tree

A tree is matched from a *scan*: the characters to the left of a position,
nearest first, those to its right, the offset, and what the groups have
captured.  The matcher tries the choices of the tree in order and hands every
scan it reaches to a continuation; the first one that the continuation accepts
is the result.  Going back to an earlier choice is nothing but the failure of
a continuation, so captures made on the way are undone with it.

A repeat has a part that it owes, `least` times its body, and a part that it
may do.  In the second part an iteration that consumes nothing is followed by
no other.  So it takes at most as many iterations as characters are left, and
one more; that number is the recursion's argument.
-/

import Highlight.Pattern.Parser

namespace Highlight
namespace Pattern

/-- A position in a text, with what has been captured so far. -/
structure Scan where
  before : Text
  after : Text
  offset : Nat
  captures : List (Option Text)
  deriving DecidableEq, Repr

namespace Scan

/-- Steps over the next character if it passes a test. -/
def step? (s : Scan) (test : Char → Bool) : Option Scan :=
  match s.after with
  | [] => none
  | c :: rest =>
    if test c then some { s with before := c :: s.before, after := rest, offset := s.offset + 1 }
    else none

/-- Steps over a text that has to come next, up to an equality of
characters. -/
def steps? (s : Scan) (same : Char → Char → Bool) : Text → Option Scan
  | [] => some s
  | c :: rest =>
    match s.step? (same c) with
    | none => none
    | some s => s.steps? same rest

/-- Goes back by a number of characters, if there are as many. -/
def back? (s : Scan) : Nat → Option Scan
  | 0 => some s
  | n + 1 =>
    match s.before with
    | [] => none
    | c :: rest =>
      back? { s with before := rest, after := c :: s.after, offset := s.offset - 1 } n

/-- What a group has captured. -/
def captured (s : Scan) (index : Nat) : Option Text :=
  (s.captures[index - 1]?).join

/-- Captures for a group the text from an earlier scan up to this one. -/
def capture (s : Scan) (index : Nat) (origin : Scan) : Scan :=
  let text := origin.after.take (s.offset - origin.offset)
  { s with captures := s.captures.set (index - 1) (some text) }

end Scan

/-- Whether an anchor holds at a scan. -/
def Anchor.holds (flags : Flags) (s : Scan) : Anchor → Bool
  | .textStart => s.before.isEmpty
  | .lineStart => s.before.isEmpty || (flags.multiline && s.before.head? == some '\n')
  | .textEnd => s.after.isEmpty
  | .lineEnd =>
    s.after.isEmpty || s.after == ['\n'] || (flags.multiline && s.after.head? == some '\n')
  | .boundary => !(s.before.isEmpty && s.after.isEmpty) && wordAt s.before != wordAt s.after
  | .inner => !(s.before.isEmpty && s.after.isEmpty) && wordAt s.before == wordAt s.after
where
  /-- Whether a side of the position begins with a word character. -/
  wordAt (side : Text) : Bool :=
    side.head?.any (Category.word.holds flags.ascii)

/-- What is done with a scan once the part before it has matched. -/
abbrev Continuation := Scan → Option Scan

/-- A way of matching: where from, and how to go on. -/
abbrev Matching := Scan → Continuation → Option Scan

namespace Matching

/-- Matches with no way back into the choices made. -/
def atomic (m : Matching) : Matching := fun s k =>
  match m s some with
  | none => none
  | some s => k s

/-- Matches a number of times. -/
def times (m : Matching) : Nat → Matching
  | 0, s, k => k s
  | n + 1, s, k => m s fun s => times m n s k

/-- Matches up to `most` times, as often as possible first.  `fuel` bounds the
iterations; the number of characters left and one more is enough. -/
def greedily (m : Matching) : (fuel : Nat) → (most : Option Nat) → Matching
  | 0, _, s, k => k s
  | fuel + 1, most, s, k =>
    if most = some 0 then k s
    else
      (m s fun t =>
        if t.offset = s.offset then k t else greedily m fuel (most.map (· - 1)) t k) <|> k s

/-- Matches up to `most` times, as rarely as possible first. -/
def lazily (m : Matching) : (fuel : Nat) → (most : Option Nat) → Matching
  | 0, _, s, k => k s
  | fuel + 1, most, s, k =>
    if most = some 0 then k s
    else
      k s <|> m s fun t =>
        if t.offset = s.offset then k t else lazily m fuel (most.map (· - 1)) t k

/-- Matches up to `most` times, as often as possible, with no way back. -/
def possessively (m : Matching) : (fuel : Nat) → (most : Option Nat) → Matching
  | 0, _, s, k => k s
  | fuel + 1, most, s, k =>
    if most = some 0 then k s
    else
      match m s some with
      | none => k s
      | some t =>
        if t.offset = s.offset then k t else possessively m fuel (most.map (· - 1)) t k

/-- Matches at least `least` and at most `most` times. -/
def repeated (m : Matching) (greed : Greed) (least : Nat) (most : Option Nat) : Matching :=
  let rest := most.map (· - least)
  match greed with
  | .greedy => fun s k => times m least s fun s => greedily m (s.after.length + 1) rest s k
  | .lazy => fun s k => times m least s fun s => lazily m (s.after.length + 1) rest s k
  | .possessive => fun s k =>
    times (atomic m) least s fun s => possessively m (s.after.length + 1) rest s k

/-- What is found ahead, or behind by a width. -/
def glance (m : Matching) (behind : Option Nat) (s : Scan) : Option Scan :=
  match behind with
  | none => m s some
  | some width => (s.back? width).bind fun s => m s some

/-- Matches ahead, or behind by a width, without moving.  What is captured on
the way is kept if the match is wanted. -/
def look (m : Matching) (behind : Option Nat) (negated : Bool) : Matching := fun s k =>
  match glance m behind s, negated with
  | some t, false => k { s with captures := t.captures }
  | none, true => k s
  | _, _ => none

end Matching

/-- Matches a tree. -/
def Tree.run (flags : Flags) : Tree → Matching
  | .empty => fun s k => k s
  | .any => fun s k => (s.step? fun c => flags.dotAll || c != '\n').bind k
  | .set chars => fun s k => (s.step? fun c => chars.accepts flags c).bind k
  | .anchor a => fun s k => if a.holds flags s then k s else none
  | .reference index => fun s k =>
    match s.captured index with
    | none => none
    | some text => (s.steps? (fun c d => flags.fold c == flags.fold d) text).bind k
  | .seq first second => fun s k => first.run flags s fun s => second.run flags s k
  | .alt first second => fun s k => first.run flags s k <|> second.run flags s k
  | .group index body => fun s k => body.run flags s fun t => k (t.capture index s)
  | .look behind negated body => Matching.look (fun s k => body.run flags s k) behind negated
  | .atomic body => Matching.atomic fun s k => body.run flags s k
  | .under change body => fun s k => body.run (flags.change change) s k
  | .conditional index captured otherwise => fun s k =>
    if (s.captured index).isSome then captured.run flags s k else otherwise.run flags s k
  | .rep greed least most body =>
    Matching.repeated (fun s k => body.run flags s k) greed least most

end Pattern
end Highlight
