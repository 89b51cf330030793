/-
# Runs

A run is a computation that can fail and that keeps what it has done, failed
or not: the store with the grammars it resolved, the events it reported, its
profile, the greatest depth it reached, and the number of the last attempt.
It also keeps count of the handles it used that were neither the head of a
buffer nor alive, which no run should do.

The actions below are the only ones that change a run.  An attempt is charged
before it is made.  It takes the next number, and is given up if that is more
than the limit, or if the time is over when the clock is read for it; only
then does the profile count it.
-/

import Highlight.Grammar.Store
import Highlight.Profile

namespace Highlight

/-- What a run has done so far. -/
structure Run where
  store : Store
  events : List Event := []
  profile : Profile := {}
  peak : Nat := 0
  steps : Nat := 0
  strays : Nat := 0
  deriving DecidableEq, Repr

/-- A computation within a run. -/
abbrev RunM := EStateM Failure Run

namespace RunM

/-- Reports events. -/
def report (events : List Event) : RunM Unit :=
  modify fun r => { r with events := r.events ++ events }

/-- Changes the profile. -/
def count (f : Profile → Profile) : RunM Unit :=
  modify fun r => { r with profile := f r.profile }

/-- Notes that a depth has been reached. -/
def reachDepth (depth : Nat) : RunM Unit :=
  modify fun r => { r with peak := max r.peak depth }

/-- Reports an event and fails. -/
def giveUp {α : Type} (event : Event) (failure : Failure) : RunM α := do
  report [event]
  throw failure

/-- The outcome of an operation on a buffer within a run. -/
def onBuffer {α : Type} (result : Except Buffer.Fault α) : RunM α :=
  match result with
  | .ok a => pure a
  | .error fault => throw (.fault fault)

/-- Notes that a handle is used. -/
def use (b : Buffer) (handle : Nat) : RunM Unit :=
  if handle = Buffer.head || b.isLive handle then pure ()
  else modify fun r => { r with strays := r.strays + 1 }

/-- The handle after a handle. -/
def next (b : Buffer) (handle : Nat) : RunM Nat := do
  use b handle
  onBuffer (b.next handle)

/-- The handle before a handle. -/
def prev (b : Buffer) (handle : Nat) : RunM Nat := do
  use b handle
  onBuffer (b.prev handle)

/-- The chunk of a handle. -/
def value (b : Buffer) (handle : Nat) : RunM Chunk := do
  use b handle
  onBuffer (b.value handle)

/-- Inserts a chunk after a handle. -/
def insertAfter (b : Buffer) (handle : Nat) (chunk : Chunk) : RunM (Nat × Buffer) := do
  use b handle
  onBuffer (b.insertAfter handle chunk)

/-- Inserts a plain chunk after a handle, unless there is no text.  The handle
returned is that of the new chunk, or else the old one. -/
def insertText (b : Buffer) (handle : Nat) (text : Text) : RunM (Nat × Buffer) :=
  if text = [] then pure (handle, b) else insertAfter b handle (.plain text)

/-- Removes a number of chunks after a handle. -/
def removeRun (b : Buffer) (handle count : Nat) : RunM Buffer := do
  use b handle
  return (← onBuffer (b.removeRun handle count)).2

/-- The resolution of a grammar within a run. -/
def resolve (ref : Ref) : RunM Resolution := do
  match (← get).store.resolve ref with
  | .error failure => throw failure
  | .ok (resolution, store, events) =>
    modify fun r => { r with store, events := r.events ++ events }
    return resolution

/-- Takes the next number for an attempt. -/
def takeNumber : RunM Nat :=
  modifyGet fun r => (r.steps + 1, { r with steps := r.steps + 1 })

/-- Charges one attempt against the limits. -/
def charge (limits : Limits) : RunM Unit := do
  let number ← takeNumber
  if !limits.allowsStep number then
    let most := limits.maxSteps.getD 0
    giveUp (.stepsExhausted most) (.budgetExceeded (.steps most))
  else if limits.isExpired number then
    let allowed := limits.timeout.getD ⟨0, 0⟩
    giveUp (.timeExhausted allowed) (.budgetExceeded (.time allowed))
  else
    count fun p => { p with patternAttempts := p.patternAttempts + 1 }

/-- One search for the pattern of a rule. -/
def attempt (limits : Limits) (rule : CompiledRule) (text : Text) (offset : Nat) :
    RunM (Option Match) := do
  charge limits
  return rule.pattern.find? text offset rule.lookbehind

end RunM
end Highlight
