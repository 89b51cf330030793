/-
# The parts of a step

A step of a rule has three parts.

| part | what it does |
| --- | --- |
| `Walk.plan` | checks for too many chunks and makes the attempt |
| `Walk.splice` | puts the token in the place of the chunks that the match covers |
| `Walk.resume` | offers the merged region to the rules before, and goes on |

A step that makes no token has the first part only, and passes a chunk or ends
the walk (`Walk.step_eq`).
-/

import Highlight.Tokenizer.Basic
import Highlight.Proofs.Tokenizer.Computation

namespace Highlight

namespace Walk

/-- What a rule is about to do: end its walk, pass a chunk of some length, or
make a token of a match.  The walk is at that chunk, or at the chunk in which
the match begins. -/
inductive Plan where
  | stop
  | skip (w : Walk) (length : Nat)
  | cut (w : Walk) (cut : Cut)

/-- What a rule is about to do at its place. -/
def plan (limits : Limits) (text : Text) (clause : Clause) (w : Walk) : RunM Plan := do
  if w.isOver then return .stop
  else if (text.length : Int) < w.buffer.size then
    RunM.giveUp (.overrun clause.type w.buffer.size text.length)
      (.overrun w.buffer.size text.length)
  else
    match ← RunM.value w.buffer w.handle with
    | .plain chunk =>
      if clause.rule.greedy then
        match ← greedyCut limits text clause w with
        | none => return .stop
        | some (w, some cut) => return .cut w cut
        | some (w, none) =>
          let token ← RunM.value w.buffer w.handle
          return .skip w token.extent
      else
        match ← localCut limits clause chunk with
        | none => return .skip w chunk.length
        | some cut => return .cut w cut
    | token => return .skip w token.extent

/-- A buffer in which a token has been put in the place of the chunks that a
match covers: the handle in front of the token, that of the token, and the
token. -/
structure Spliced where
  buffer : Buffer
  origin : Nat
  handle : Nat
  token : Chunk

/-- Makes a token of a match and puts it, with what is before and after the
match, in the place of the chunks that the match covers. -/
def splice (enter : Enter) (clause : Clause) (w : Walk) (cut : Cut) : RunM Spliced := do
  let (origin, buffer) ← RunM.insertText w.buffer (← RunM.prev w.buffer w.handle) cut.before
  let buffer ← RunM.removeRun buffer origin cut.covered
  let token ← tokenOf enter clause cut.matched
  let (handle, buffer) ← RunM.insertAfter buffer origin token
  let (_, buffer) ← RunM.insertText buffer handle cut.after
  return { buffer, origin, handle, token }

/-- Goes on behind the token that has been made of a match, in what a sweep has
left. -/
def behind (w : Walk) (cut : Cut) (s : Spliced) (swept : Swept) : RunM Walk := do
  return {
    buffer := swept.buffer
    handle := ← RunM.next swept.buffer s.handle
    offset := w.offset + cut.before.length + s.token.extent
    reach := extend (extend w.reach (w.offset + cut.segment.length)) (swept.reach.getD 0) }

/-- Offers a region in which several chunks were merged to the rules before
this one, and goes on behind the token. -/
def resume (enter : Enter) (text : Text) (earlier : List Clause) (w : Walk) (cut : Cut)
    (s : Spliced) : RunM Walk := do
  let reach := w.offset + cut.segment.length
  let offset := w.offset + cut.before.length
  let swept ←
    if 1 < cut.covered then do
      RunM.count fun p => { p with rematchPasses := p.rematchPasses + 1 }
      enter { text, clauses := earlier, buffer := s.buffer, start := s.origin, offset
              reach := some reach }
    else pure { buffer := s.buffer, reach := some reach }
  w.behind cut s swept

variable {enter : Enter} {limits : Limits} {text : Text} {earlier : List Clause} {clause : Clause}
  {w : Walk}

/-- A match is made a token, and then the walk goes on. -/
theorem replace_eq (cut : Cut) :
    w.replace enter text earlier clause cut =
      w.splice enter clause cut >>= w.resume enter text earlier cut := by
  unfold replace splice resume behind
  simp only [bind_assoc, pure_bind]

/-- **A step carries out what the rule is about to do.** -/
theorem step_eq :
    w.step enter limits text earlier clause = (do
      match ← w.plan limits text clause with
      | .stop => return none
      | .skip w length => return some (← w.skip length)
      | .cut w cut => return some (← w.replace enter text earlier clause cut)) := by
  unfold step plan
  split
  · rfl
  · split
    · rfl
    · rw [bind_assoc]
      congr 1
      funext chunk
      cases chunk with
      | plain chunk =>
        dsimp only
        split
        · rw [bind_assoc]
          congr 1
          funext found
          rcases found with _ | ⟨w, _ | cut⟩
          · rfl
          · simp only [bind_assoc, pure_bind]
          · rfl
        · rw [bind_assoc]
          congr 1
          funext found
          cases found <;> rfl
      | leaf tag text | node tag parts => rfl

end Walk

end Highlight
