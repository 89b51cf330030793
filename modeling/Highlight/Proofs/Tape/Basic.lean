/-
# Sweeps over lists

The tokenizer sweeps over a linked list with handles.  The same sweeps over
plain lists are defined here; `Highlight.Proofs.Tape.Refinement` shows that the
two end alike, so that whatever holds of these holds of the tokenizer.

A `Strip` is a sweep: the chunks from its start on, and how many chunks there
are to the left of it, which the check for too many chunks counts as well.  A
`Tape` is a walk: the chunks that the rule has passed since the start of the
sweep, and those ahead of it.  At a plain chunk one attempt is charged, and
what the rule finds decides its `Move`:

| move | what becomes of the chunks ahead |
| --- | --- |
| `stop` | the walk is over |
| `pass skipped rest` | `skipped` is passed, `rest` is ahead |
| `cut skipped covered rest` | `skipped` is passed, and `covered` is replaced |

Where `covered` is more than one chunk, another sweep follows, with the rules
before this one, over the new token and all that is to the right of it.  The
token itself stays where it is (`Highlight.Proofs.Tape.Refinement`), so what is
ahead after that sweep is what it leaves without its first chunk.
-/

import Highlight.Tokenizer.Basic
import Mathlib.Algebra.Ring.Nat

namespace Highlight

namespace Chunk

/-- The number of characters that chunks cover. -/
def extents (cs : List Chunk) : Nat :=
  (cs.map extent).sum

/-- A text as chunks: one, or none if it is empty. -/
def ofText (text : Text) : List Chunk :=
  if text = [] then [] else [.plain text]

end Chunk

/-- A sweep over a list: the text, the rules, how many chunks are to the left,
the chunks, the offset of the first one, and the offset at which the sweep
ends, if it is a rematch. -/
structure Strip where
  text : Text
  clauses : List Clause
  base : Nat
  chunks : List Chunk
  offset : Nat
  reach : Option Nat

/-- What a sweep over a list leaves: the chunks, and how far it reached. -/
structure Strip.Swept where
  chunks : List Chunk
  reach : Option Nat

/-- The sweeps over lists one recursion deeper. -/
abbrev Strip.Enter := Strip → RunM Strip.Swept

/-- A rule on its way over a list: the chunks it has passed, those ahead, the
offset between the two, and the offset at which the way ends. -/
structure Tape where
  passed : List Chunk
  ahead : List Chunk
  offset : Nat
  reach : Option Nat

/-- The chunks of a text cut by a grammar, by sweeps over lists. -/
def Strip.chunksOf (enter : Strip.Enter) (nested : Bool) (text : Text) (ref : Ref) :
    RunM (List Chunk) := do
  let resolution ← RunM.resolve ref
  RunM.count fun p =>
    if nested then { p with nestedCalls := p.nestedCalls + 1 }
    else { p with
      tokenizeCalls := p.tokenizeCalls + 1
      sourceLength := p.sourceLength + text.length }
  if text = [] then return []
  let clauses := resolution.clauses
  let swept ←
    enter { text, clauses, base := 0, chunks := [.plain text], offset := 0, reach := none }
  return swept.chunks

/-- The token that a rule makes of a matched text, by sweeps over lists. -/
def Strip.tokenOf (enter : Strip.Enter) (clause : Clause) (matched : Text) : RunM Chunk := do
  let tag : Tag :=
    { type := clause.type, display := clause.rule.display, length := matched.length }
  let token ← match clause.rule.inside with
    | none => pure (Chunk.leaf tag matched)
    | some id => Chunk.node tag <$> Strip.chunksOf enter true matched (.grammar id)
  RunM.count fun p => { p with tokenCount := p.tokenCount + 1 }
  return token

/-- What a rule does with the chunks ahead. -/
inductive Move where
  | stop
  | pass (skipped rest : List Chunk)
  | cut (skipped covered rest : List Chunk) (cut : Cut)

namespace Tape

/-- The chunks before the one in which an offset lies, and that one with those
after it. -/
def seat (target : Nat) : Nat → List Chunk → List Chunk × List Chunk
  | _, [] => ([], [])
  | offset, c :: cs =>
    if target < offset + c.extent then ([], c :: cs)
    else
      let (skipped, ahead) := seat target (offset + c.extent) cs
      (c :: skipped, ahead)

/-- The chunks that a match covers that ends at an offset, with the plain
chunks that follow it; and the chunks after them. -/
def cover (target : Nat) : Nat → List Chunk → List Chunk × List Chunk
  | _, [] => ([], [])
  | offset, c :: cs =>
    if offset < target || !c.isToken then
      let (covered, rest) := cover target (offset + c.extent) cs
      (c :: covered, rest)
    else ([], c :: cs)

/-- What a greedy rule does, by what it has found in the text. -/
def greedyMove (text : Text) (t : Tape) : Option Match → Move
  | none => .stop
  | some m =>
    if text.length ≤ m.index then .stop
    else
      let (skipped, ahead) := seat m.index t.offset t.ahead
      let offset := t.offset + Chunk.extents skipped
      match ahead with
      | [] => .stop
      | .plain chunk :: rest =>
        let (covered, rest) := cover m.stop offset (.plain chunk :: rest)
        .cut skipped covered rest
          { segment := text.slice offset (offset + Chunk.extents covered)
            covered := covered.length
            offset := m.index - offset
            matched := m.text }
      | token :: rest => .pass (skipped ++ [token]) rest

/-- What any other rule does at a plain chunk, by what it has found in it. -/
def localMove (chunk : Text) (rest : List Chunk) : Option Match → Move
  | none => .pass [.plain chunk] rest
  | some m => .cut [] [.plain chunk] rest
      { segment := chunk, covered := 1, offset := m.index, matched := m.text }

/-- What a rule does at a plain chunk. -/
def choose (text : Text) (clause : Clause) (t : Tape) (chunk : Text) (rest : List Chunk) : Move :=
  if clause.rule.greedy then
    t.greedyMove text (clause.rule.pattern.find? text t.offset clause.rule.lookbehind)
  else localMove chunk rest (clause.rule.pattern.find? chunk 0 clause.rule.lookbehind)

/-- Passes chunks. -/
def pass (t : Tape) (skipped rest : List Chunk) : Tape :=
  { t with
    passed := t.passed ++ skipped
    ahead := rest
    offset := t.offset + Chunk.extents skipped }

/-- The chunks that a cut leaves to be walked over: the token, what is after
the match, and the rest. -/
def leftover (cut : Cut) (token : Chunk) (rest : List Chunk) : List Chunk :=
  token :: (Chunk.ofText cut.after ++ rest)

/-- The rematch after a cut. -/
def rematch (t : Tape) (text : Text) (base : Nat) (earlier : List Clause) (cut : Cut)
    (token : Chunk) (rest : List Chunk) : Strip where
  text := text
  clauses := earlier
  base := base + (t.passed ++ Chunk.ofText cut.before).length
  chunks := leftover cut token rest
  offset := t.offset + cut.before.length
  reach := some (t.offset + cut.segment.length)

/-- The walk after a cut, by the token and by what a sweep over what the cut
has left has made of it. -/
def resume (t : Tape) (cut : Cut) (token : Chunk) (swept : Strip.Swept) : Tape where
  passed := t.passed ++ Chunk.ofText cut.before ++ [token]
  ahead := swept.chunks.tail
  offset := t.offset + cut.before.length + token.extent
  reach := Walk.extend (Walk.extend t.reach (t.offset + cut.segment.length))
    (swept.reach.getD 0)

/-- Makes a token of a match in the chunks ahead that a cut covers, and passes
it. -/
def replace (enter : Strip.Enter) (text : Text) (base : Nat) (earlier : List Clause)
    (clause : Clause) (t : Tape) (rest : List Chunk) (cut : Cut) : RunM Tape := do
  let token ← Strip.tokenOf enter clause cut.matched
  let swept ←
    if 1 < cut.covered then do
      RunM.count fun p => { p with rematchPasses := p.rematchPasses + 1 }
      enter (t.rematch text base earlier cut token rest)
    else pure ⟨leftover cut token rest, some (t.offset + cut.segment.length)⟩
  return t.resume cut token swept

/-- One step of a rule over a list. -/
def step (enter : Strip.Enter) (limits : Limits) (text : Text) (base : Nat)
    (earlier : List Clause) (clause : Clause) (t : Tape) : RunM (Option Tape) := do
  if t.ahead.isEmpty || t.reach.any (· ≤ t.offset) then return none
  else
    let size : Nat := base + t.passed.length + t.ahead.length
    if text.length < size then
      RunM.giveUp (.overrun clause.type size text.length) (.overrun size text.length)
    else
      match t.ahead with
      | [] => return none
      | .plain chunk :: rest =>
        RunM.charge limits
        match t.choose text clause chunk rest with
        | .stop => return none
        | .pass skipped rest => return some (t.pass skipped rest)
        | .cut skipped covered rest cut =>
          return some (← (t.pass skipped (covered ++ rest)).replace enter text base earlier clause
            rest cut)
      | token :: rest => return some (t.pass [token] rest)

/-- Steps to the end of a walk over a list. -/
def finish (step : Tape → RunM (Option Tape)) : Nat → Tape → RunM Tape
  | 0, _ => throw .runaway
  | fuel + 1, t => do
    match ← step t with
    | none => return t
    | some t => finish step fuel t

end Tape

/-- How a rule steps over a list, given the sweeps one recursion deeper, the
limits, the text, the number of chunks to the left of the sweep, and the rules
before it. -/
abbrev Tape.Stepper :=
  Strip.Enter → Limits → (text : Text) → (base : Nat) → (earlier : List Clause) → Clause →
    Tape → RunM (Option Tape)

namespace Strip

/-- The walk of one rule over a strip. -/
def walk (stepper : Tape.Stepper) (enter : Strip.Enter) (limits : Limits) (s : Strip)
    (earlier : List Clause) (clause : Clause) (state : Swept) : RunM Swept := do
  let t ← Tape.finish (stepper enter limits s.text s.base earlier clause) (Walk.fuel s.text)
    { passed := [], ahead := state.chunks, offset := s.offset, reach := state.reach }
  return { chunks := t.passed ++ t.ahead, reach := t.reach }

/-- The walks of the rules still to come, each with the rules before it. -/
def walks (stepper : Tape.Stepper) (enter : Strip.Enter) (limits : Limits) (s : Strip) :
    (earlier later : List Clause) → Swept → RunM Swept
  | _, [], state => return state
  | earlier, clause :: later, state => do
    let state ← s.walk stepper enter limits earlier clause state
    s.walks stepper enter limits (earlier ++ [clause]) later state

/-- All walks of a sweep over a list. -/
def run (stepper : Tape.Stepper) (enter : Strip.Enter) (limits : Limits) (s : Strip) :
    RunM Swept :=
  s.walks stepper enter limits [] s.clauses { chunks := s.chunks, reach := s.reach }

/-- Sweeps over lists at a depth, with a number of levels left below it. -/
def descend (stepper : Tape.Stepper) (limits : Limits) : (levels depth : Nat) → Strip.Enter
  | 0, depth => fun _ => Tokenizer.refuse limits depth
  | levels + 1, depth => fun s => do
    RunM.reachDepth (depth + 1)
    s.run stepper (descend stepper limits levels (depth + 1)) limits

end Strip
end Highlight
