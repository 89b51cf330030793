/-
# Where a greedy rule stops

A greedy rule whose search finds nothing, or only something beyond the end of the text,
stops there: it does not look at the chunks that are left.  Here what it does is left open
(`Walk.stepWith`, `Tape.stepWith`).  It may stop, which is the step of the tokenizer
(`Walk.step_eq_stepWith`); or it may pass the one plain chunk that it is at, and look on
(`Walk.stepPatiently`).
-/

import Highlight.Proofs.Tape.Basic

namespace Highlight

namespace Walk

/-- One step of a rule that does something of its own at a plain chunk from which on a
greedy rule finds nothing. -/
def stepWith (halt : Walk → Text → RunM (Option Walk)) : Stepper :=
  fun enter limits text earlier clause w => do
    if w.isOver then return none
    else if (text.length : Int) < w.buffer.size then
      RunM.giveUp (.overrun clause.type w.buffer.size text.length)
        (.overrun w.buffer.size text.length)
    else
      match ← RunM.value w.buffer w.handle with
      | .plain chunk =>
        if clause.rule.greedy then
          match ← greedyCut limits text clause w with
          | none => halt w chunk
          | some (w, some cut) => return some (← w.replace enter text earlier clause cut)
          | some (w, none) =>
            let token ← RunM.value w.buffer w.handle
            return some (← w.skip token.extent)
        else
          match ← localCut limits clause chunk with
          | none => return some (← w.skip chunk.length)
          | some cut => return some (← w.replace enter text earlier clause cut)
      | token => return some (← w.skip token.extent)

/-- The step of the tokenizer is the one that stops. -/
theorem step_eq_stepWith : step = stepWith fun _ _ => return none :=
  rfl

/-- One step of a rule that does not stop before the end of its region: where a greedy rule
finds nothing it passes the plain chunk that it is at. -/
def stepPatiently : Stepper :=
  stepWith fun w chunk => return some (← w.skip chunk.length)

end Walk

namespace Tape

/-- One step over a list of a rule that does something of its own at a plain chunk from
which on a greedy rule finds nothing. -/
def stepWith (halt : Tape → Text → List Chunk → Option Tape) : Stepper :=
  fun enter limits text base earlier clause t => do
    if t.ahead.isEmpty || t.reach.any (· ≤ t.offset) then return none
    else
      let size : Nat := base + t.passed.length + t.ahead.length
      if text.length < size then
        RunM.giveUp (.overrun clause.type size text.length) (.overrun size text.length)
      else
        match t.ahead with
        | [] => return none
        | .plain chunk :: rest =>
          RunM.charge limits
          match t.choose text clause chunk rest with
          | .stop => return halt t chunk rest
          | .pass skipped rest => return some (t.pass skipped rest)
          | .cut skipped covered rest cut =>
            return some (← (t.pass skipped (covered ++ rest)).replace enter text base earlier clause
              rest cut)
        | token :: rest => return some (t.pass [token] rest)

/-- The step over a list is the one that stops. -/
theorem step_eq_stepWith : step = stepWith fun _ _ _ => none :=
  rfl

/-- One step over a list of a rule that does not stop before the end of its region. -/
def stepPatiently : Stepper :=
  stepWith fun t chunk rest => some (t.pass [.plain chunk] rest)

end Tape
end Highlight
