/-
# Sweeps

A *sweep* applies rules, one after the other, to the chunks of a buffer from a
handle on.  Each rule walks over the chunks from left to right and tries its
pattern on every plain one.  Where it matches, the chunk is replaced by what is
before the match, a token, and what is after it; the walk goes on with what is
after it.

A greedy rule seeks its match in the whole text, from the offset of the chunk
on.  The match may begin in a later chunk, and it may cover several: tokens
that rules before made, and plain text between and after them.  If it covers
more than one chunk, the text that it set free has to be offered again to the
rules before it.  That is another sweep, a *rematch*, with those rules alone,
from before the new token on, and up to the end of the region that was
merged: its `reach`.  A merge within the rematch may move the reach to the
right.

The sweep of nested text and the rematch are one recursion deeper.  Here that
recursion is an argument, `enter`; `Highlight.Tokenizer.Basic` ties the knot.
The step of a walk is an argument of the sweep, too: `Walk.step` is the one
that the tokenizer takes.  A walk has no more steps than the square of the
length of the text, a little increased, because at each offset it passes fewer
chunks than the overrun check lets through; that square is the recursion's
argument.
-/

import Highlight.Tokenizer.Run

namespace Highlight

/-- A rule with the token type it stands under. -/
structure Clause where
  type : String
  rule : CompiledRule
  deriving DecidableEq, Repr

/-- The rules of a resolution in order of priority. -/
def Resolution.clauses (r : Resolution) : List Clause :=
  r.entries.flatMap fun entry => entry.2.map fun rule => ⟨entry.1, rule⟩

/-- A sweep: the text, the rules, the buffer, the handle after which it
starts, the offset of the first chunk after the handle, and the offset at
which it ends, if it is a rematch. -/
structure Sweep where
  text : Text
  clauses : List Clause
  buffer : Buffer
  start : Nat
  offset : Nat
  reach : Option Nat

/-- What a sweep leaves: the buffer, and how far it reached. -/
structure Swept where
  buffer : Buffer
  reach : Option Nat

/-- A rule on its way over the chunks: the buffer, the handle of the chunk it
is at, the offset of that chunk, and the offset at which the way ends. -/
structure Walk where
  buffer : Buffer
  handle : Nat
  offset : Nat
  reach : Option Nat

/-- The sweeps one recursion deeper. -/
abbrev Enter := Sweep → RunM Swept

namespace Walk

/-- Whether a walk has come to the end of its region. -/
def isOver (w : Walk) : Bool :=
  w.handle = Buffer.tail || w.reach.any (· ≤ w.offset)

/-- Goes on to the chunk after one of some length. -/
def skip (w : Walk) (length : Nat) : RunM Walk := do
  let handle ← RunM.next w.buffer w.handle
  return { w with handle, offset := w.offset + length }

/-- A reach moved to the right, where there is one. -/
def extend (reach : Option Nat) (offset : Nat) : Option Nat :=
  reach.map (max · offset)

/-- The chunk in which an offset lies, found from a chunk to its left on, with
the offset where it starts. -/
def seat (b : Buffer) (target : Nat) : Nat → Nat → Nat → RunM (Nat × Nat)
  | 0, _, _ => throw .runaway
  | fuel + 1, handle, offset => do
    let chunk ← RunM.value b handle
    if target < offset + chunk.extent then return (handle, offset)
    else seat b target fuel (← RunM.next b handle) (offset + chunk.extent)

/-- How many chunks a match covers that ends at an offset, with the plain
chunks that follow it, and the offset where they end. -/
def cover (b : Buffer) (target : Nat) : Nat → Nat → Nat → Nat → RunM (Nat × Nat)
  | 0, _, _, _ => throw .runaway
  | fuel + 1, handle, offset, covered => do
    if handle = Buffer.tail then return (covered, offset)
    else
      let chunk ← RunM.value b handle
      if offset < target || !chunk.isToken then
        cover b target fuel (← RunM.next b handle) (offset + chunk.extent) (covered + 1)
      else return (covered, offset)

end Walk

/-- A match about to be made a token: the text of the chunks it covers, how
many they are, the offset of the match in that text, and the matched text. -/
structure Cut where
  segment : Text
  covered : Nat
  offset : Nat
  matched : Text

namespace Cut

/-- What is before the match. -/
def before (c : Cut) : Text :=
  c.segment.take c.offset

/-- What is after the match. -/
def after (c : Cut) : Text :=
  c.segment.drop (c.offset + c.matched.length)

end Cut

/-- The chunks of a text cut by a grammar, nested in another text or not.
The empty text has none, but its grammar is resolved all the same. -/
def chunksOf (enter : Enter) (nested : Bool) (text : Text) (ref : Ref) : RunM (List Chunk) := do
  let resolution ← RunM.resolve ref
  RunM.count fun p =>
    if nested then { p with nestedCalls := p.nestedCalls + 1 }
    else { p with
      tokenizeCalls := p.tokenizeCalls + 1
      sourceLength := p.sourceLength + text.length }
  if text = [] then return []
  let (_, buffer) ← RunM.insertAfter Buffer.empty Buffer.head (.plain text)
  let clauses := resolution.clauses
  let swept ← enter { text, clauses, buffer, start := Buffer.head, offset := 0, reach := none }
  return swept.buffer.toList

/-- The token that a rule makes of a matched text. -/
def tokenOf (enter : Enter) (clause : Clause) (matched : Text) : RunM Chunk := do
  let tag : Tag :=
    { type := clause.type, display := clause.rule.display, length := matched.length }
  let token ← match clause.rule.inside with
    | none => pure (Chunk.leaf tag matched)
    | some id => Chunk.node tag <$> chunksOf enter true matched (.grammar id)
  RunM.count fun p => { p with tokenCount := p.tokenCount + 1 }
  return token

namespace Walk

/-- Makes a token of a match and goes on to the chunk after it.  `earlier` are
the rules that a merge offers the region to again. -/
def replace (enter : Enter) (text : Text) (earlier : List Clause) (clause : Clause) (w : Walk)
    (cut : Cut) : RunM Walk := do
  let reach := w.offset + cut.segment.length
  let (origin, buffer) ← RunM.insertText w.buffer (← RunM.prev w.buffer w.handle) cut.before
  let offset := w.offset + cut.before.length
  let buffer ← RunM.removeRun buffer origin cut.covered
  let token ← tokenOf enter clause cut.matched
  let (handle, buffer) ← RunM.insertAfter buffer origin token
  let (_, buffer) ← RunM.insertText buffer handle cut.after
  let swept ←
    if 1 < cut.covered then do
      RunM.count fun p => { p with rematchPasses := p.rematchPasses + 1 }
      enter { text, clauses := earlier, buffer, start := origin, offset, reach := some reach }
    else pure { buffer, reach := some reach }
  return {
    buffer := swept.buffer
    handle := ← RunM.next swept.buffer handle
    offset := offset + token.extent
    reach := extend (extend w.reach reach) (swept.reach.getD 0) }

/-- The match that a greedy rule finds from a plain chunk on: the walk moved
to the chunk in which it begins, and the cut if that chunk is plain.  Without
a match the walk is at its end. -/
def greedyCut (limits : Limits) (text : Text) (clause : Clause) (w : Walk) :
    RunM (Option (Walk × Option Cut)) := do
  match ← RunM.attempt limits clause.rule text w.offset with
  | none => return none
  | some m =>
    if text.length ≤ m.index then return none
    else
      let fuel := w.buffer.slots.size + 1
      let (handle, offset) ← seat w.buffer m.index fuel w.handle w.offset
      let w := { w with handle, offset }
      let chunk ← RunM.value w.buffer handle
      if chunk.isToken then return some (w, none)
      else
        let (covered, stop) ← cover w.buffer m.stop fuel handle offset 0
        return some (w, some
          { segment := text.slice offset stop, covered, offset := m.index - offset
            matched := m.text })

/-- The match that a rule finds within a plain chunk. -/
def localCut (limits : Limits) (clause : Clause) (text : Text) : RunM (Option Cut) := do
  match ← RunM.attempt limits clause.rule text 0 with
  | none => return none
  | some m => return some { segment := text, covered := 1, offset := m.index, matched := m.text }

/-- One step of a rule: over a token, over a plain chunk without a match, or
over a match.  There is no step from the end of the region, nor from a place
to the right of which a greedy rule does not match. -/
def step (enter : Enter) (limits : Limits) (text : Text) (earlier : List Clause) (clause : Clause)
    (w : Walk) : RunM (Option Walk) := do
  if w.isOver then return none
  else if (text.length : Int) < w.buffer.size then
    RunM.giveUp (.overrun clause.type w.buffer.size text.length)
      (.overrun w.buffer.size text.length)
  else
    match ← RunM.value w.buffer w.handle with
    | .plain chunk =>
      if clause.rule.greedy then
        match ← greedyCut limits text clause w with
        | none => return none
        | some (w, some cut) => return some (← w.replace enter text earlier clause cut)
        | some (w, none) =>
          let token ← RunM.value w.buffer w.handle
          return some (← w.skip token.extent)
      else
        match ← localCut limits clause chunk with
        | none => return some (← w.skip chunk.length)
        | some cut => return some (← w.replace enter text earlier clause cut)
    | token => return some (← w.skip token.extent)

/-- Steps to the end of a walk. -/
def finish (step : Walk → RunM (Option Walk)) : Nat → Walk → RunM Walk
  | 0, _ => throw .runaway
  | fuel + 1, w => do
    match ← step w with
    | none => return w
    | some w => finish step fuel w

/-- More steps than a walk over a text can have. -/
def fuel (text : Text) : Nat :=
  (text.length + 3) * (text.length + 3)

end Walk

/-- How a rule steps over the chunks, given the sweeps one recursion deeper,
the limits, the text, and the rules before it. -/
abbrev Stepper :=
  Enter → Limits → (text : Text) → (earlier : List Clause) → Clause → Walk → RunM (Option Walk)

namespace Sweep

/-- The walk of one rule over the region of a sweep. -/
def walk (stepper : Stepper) (enter : Enter) (limits : Limits) (s : Sweep)
    (earlier : List Clause) (clause : Clause) (state : Swept) : RunM Swept := do
  let handle ← RunM.next state.buffer s.start
  let w ← Walk.finish (stepper enter limits s.text earlier clause) (Walk.fuel s.text)
    { buffer := state.buffer, handle, offset := s.offset, reach := state.reach }
  return { buffer := w.buffer, reach := w.reach }

/-- The walks of the rules still to come, each with the rules before it. -/
def walks (stepper : Stepper) (enter : Enter) (limits : Limits) (s : Sweep) :
    (earlier later : List Clause) → Swept → RunM Swept
  | _, [], state => return state
  | earlier, clause :: later, state => do
    let state ← s.walk stepper enter limits earlier clause state
    s.walks stepper enter limits (earlier ++ [clause]) later state

/-- All walks of a sweep. -/
def run (stepper : Stepper) (enter : Enter) (limits : Limits) (s : Sweep) : RunM Swept :=
  s.walks stepper enter limits [] s.clauses { buffer := s.buffer, reach := s.reach }

end Sweep
end Highlight
