/-
# The tokenizer

The recursion of sweeps, a run from its start to its end, and the tokenizer,
which makes one run after the other.

A sweep is entered one level deeper than the sweep that asks for it.  Before
it is entered, the depth is compared with the limit of the configuration, and
with the number of frames that the host can give, if that is less.  The levels
left to go down are the argument of the recursion.

A tokenizer is made for a configuration, which stays.  Its other slots are the
state of a run: they are reset when a call begins, the run starts from what
they hold, and what it leaves in them is there until the next call, also when
it fails.

| slot | reset to | at the end of a call |
| --- | --- | --- |
| `depth` | 0 | 0, since every way down has come up |
| `peak` | 0 | the greatest depth |
| `steps` | 0 | the number of the last attempt |
| `started` | the first reading of the clock | the same |
| `profiled` | whether a profile is being taken | the same |
-/

import Highlight.Tokenizer.Sweep

namespace Highlight
namespace Tokenizer

/-- Refuses to go deeper than a depth, because of the limit or, if the limit
would allow it, because of the host. -/
def refuse {α : Type} (limits : Limits) (depth : Nat) : RunM α := do
  let limit := limits.maxDepth
  if limit ≤ depth then
    RunM.giveUp (.depthExceeded (depth + 1) limit) (.depthExceeded (depth + 1) limit none)
  else
    let peak : Int := (← get).peak
    RunM.giveUp (.stackExhausted peak limit)
      (.depthExceeded peak limit (some (Event.stackText peak limit)))

/-- Sweeps at a depth, with a number of levels left below it. -/
def descend (stepper : Stepper) (limits : Limits) : (levels depth : Nat) → Enter
  | 0, depth => fun _ => refuse limits depth
  | levels + 1, depth => fun sweep => do
    RunM.reachDepth (depth + 1)
    sweep.run stepper (descend stepper limits levels (depth + 1)) limits

/-- The levels that a run may go down from a depth. -/
def levels (limits : Limits) (frames : Option Nat) (depth : Nat := 0) : Nat :=
  match frames with
  | none => limits.maxDepth.toNat - depth
  | some n => min (limits.maxDepth.toNat - depth) n

/-- A run may go down as many levels as neither the limit nor the host refuses. -/
theorem le_levels_iff {limits : Limits} {frames : Option Nat} {n : Nat} :
    n ≤ levels limits frames ↔
      n ≤ limits.maxDepth.toNat ∧ ∀ most, frames = some most → n ≤ most := by
  cases frames with
  | none => simp [levels]
  | some most => simp only [levels, Nat.sub_zero, Nat.le_min, Option.some.injEq, forall_eq']

/-- A run over a text from a depth, as a computation. -/
def run (limits : Limits) (frames : Option Nat) (text : Text) (ref : Ref) (depth : Nat := 0) :
    RunM (List Chunk) :=
  chunksOf (descend Walk.step limits (levels limits frames depth) depth) (0 < depth) text ref

end Tokenizer

/-- What a run leaves: its chunks or why it failed, and what it has done. -/
structure Report where
  result : Except Failure (List Chunk)
  run : Run

/-- The report of an end of a run. -/
def Report.of : EStateM.Result Failure Run (List Chunk) → Report
  | .ok chunks run => ⟨.ok chunks, run⟩
  | .error failure run => ⟨.error failure, run⟩

/-- Cuts a text into chunks.  The chunks are in the order of the text and
leave nothing of it out. -/
def tokenize (limits : Limits) (frames : Option Nat) (store : Store) (text : Text) (ref : Ref) :
    Report :=
  .of ((Tokenizer.run limits frames text ref).run { store })

/-- A tokenizer: its configuration, and the slots that its calls share. -/
structure Tokenizer where
  config : Config
  depth : Nat := 0
  peak : Nat := 0
  steps : Nat := 0
  started : Int := 0
  profiled : Bool := false
  deriving DecidableEq, Repr

namespace Tokenizer

/-- Sets the slots for a call. -/
def reset (t : Tokenizer) (clock : Clock) (profiled : Bool) : Tokenizer :=
  { t with depth := 0, peak := 0, steps := 0, started := clock.reading 0, profiled }

/-- What the next run has to go by. -/
def limits (t : Tokenizer) (clock : Clock) : Limits :=
  { t.config with started := t.started, clock }

/-- A run that starts from what the slots hold. -/
def start (t : Tokenizer) (clock : Clock) (frames : Option Nat) (store : Store) (text : Text)
    (ref : Ref) : Report :=
  .of ((run (t.limits clock) frames text ref t.depth).run
    { store, peak := t.peak, steps := t.steps })

/-- The slots as a run leaves them. -/
def leave (t : Tokenizer) (r : Run) : Tokenizer :=
  { t with peak := r.peak, steps := r.steps }

/-- One call: the slots are reset, and a run is made. -/
def call (t : Tokenizer) (clock : Clock) (profiled : Bool) (frames : Option Nat) (store : Store)
    (text : Text) (ref : Ref) : Report × Tokenizer :=
  let t := t.reset clock profiled
  let report := t.start clock frames store text ref
  (report, t.leave report.run)

/-- **A call is a run from the beginning**, whatever the slots held before. -/
theorem fst_call (t : Tokenizer) (clock : Clock) (profiled : Bool) (frames : Option Nat)
    (store : Store) (text : Text) (ref : Ref) :
    (t.call clock profiled frames store text ref).1 =
      tokenize (t.config.under clock) frames store text ref :=
  rfl

end Tokenizer
end Highlight
