/-
# Watching every step of a run

A `Watch` looks at the walk before what a rule is about to do is made out, and at
the buffer after a token has been put among its chunks (`Highlight.Proofs.Steps.Parts`).
`Tokenizer.runUnder` is the tokenizer with every step under watch, in every sweep,
rematch and nested text: an alarm ends the run as soon as something is not as it
should be.  So if the alarm, whatever failure it is, makes no difference to any run,
then every step of every run is as it should be.
-/

import Highlight.Proofs.Rematch.Watch
import Highlight.Proofs.Steps.Parts

namespace Highlight

/-- What is looked at in a step of a rule over a text: the walk before it, and
what making a token of a match does to the chunks, from the walk at the chunk
in which the match begins to the buffer with the token. -/
structure Watch where
  around : Text → Clause → Walk → Prop
  cut : Text → Clause → Walk → Cut → Walk.Spliced → Prop

/-- A step under watch. -/
noncomputable def Walk.stepWatched (watch : Watch) (alarm : Failure) : Stepper :=
  fun enter limits text earlier clause w => do
    RunM.require alarm (watch.around text clause w)
    match ← w.plan limits text clause with
    | .stop => return none
    | .skip w length => return some (← w.skip length)
    | .cut w cut =>
      let spliced ← w.splice enter clause cut
      RunM.require alarm (watch.cut text clause w cut spliced)
      return some (← w.resume enter text earlier cut spliced)

/-- A run over a text, as a computation, with all its steps under watch. -/
noncomputable def Tokenizer.runUnder (watch : Watch) (alarm : Failure) (limits : Limits)
    (frames : Option Nat) (text : Text) (ref : Ref) : RunM (List Chunk) :=
  chunksOf (descend (Walk.stepWatched watch alarm) limits (levels limits frames) 0) false text ref

namespace Walk

variable {watch : Watch} {alarm : Failure} {enter : Enter} {limits : Limits} {text : Text}
  {earlier : List Clause} {clause : Clause} {w w' : Walk} {cut : Cut} {spliced : Spliced}
  {r r' r'' : Run}

/-- The alarm is given where a walk is not as it should be. -/
theorem stepWatched_around (h : ¬ watch.around text clause w) (r : Run) :
    (stepWatched watch alarm enter limits text earlier clause w).run r = .error alarm r := by
  unfold stepWatched
  rw [RunM.require_of_not h]
  rfl

/-- The alarm is given where a token does not change the chunks as it
should. -/
theorem stepWatched_cut (haround : watch.around text clause w)
    (hplan : (w.plan limits text clause).run r = .ok (.cut w' cut) r')
    (hsplice : (w'.splice enter clause cut).run r' = .ok spliced r'')
    (h : ¬ watch.cut text clause w' cut spliced) :
    (stepWatched watch alarm enter limits text earlier clause w).run r = .error alarm r'' := by
  unfold stepWatched
  rw [RunM.require_of haround, pure_bind, EStateM.run_bind, hplan]
  dsimp only
  rw [EStateM.run_bind, hsplice]
  dsimp only
  rw [RunM.require_of_not h]
  rfl

end Walk
end Highlight
