/-
# Profiles

Counts of what runs have done.  Profiles add up: the profile of two runs is
the sum of their profiles.
-/

namespace Highlight

/-- What a number of runs have done. -/
structure Profile where
  /-- Runs asked for. -/
  tokenizeCalls : Nat := 0
  /-- Nested grammars applied within runs. -/
  nestedCalls : Nat := 0
  /-- Characters of the texts of the runs asked for. -/
  sourceLength : Nat := 0
  /-- Tokens made, those that were replaced later included. -/
  tokenCount : Nat := 0
  /-- Passes over a region that a greedy rule merged. -/
  rematchPasses : Nat := 0
  /-- Searches for a pattern. -/
  patternAttempts : Nat := 0
  deriving DecidableEq, Repr

namespace Profile

/-- The sum of two profiles. -/
def add (p q : Profile) : Profile where
  tokenizeCalls := p.tokenizeCalls + q.tokenizeCalls
  nestedCalls := p.nestedCalls + q.nestedCalls
  sourceLength := p.sourceLength + q.sourceLength
  tokenCount := p.tokenCount + q.tokenCount
  rematchPasses := p.rematchPasses + q.rematchPasses
  patternAttempts := p.patternAttempts + q.patternAttempts

/-- A run that did nothing adds nothing. -/
theorem add_zero (p : Profile) : p.add {} = p := by
  cases p
  rfl

/-- What is added to nothing is all there is. -/
theorem zero_add (p : Profile) : ({} : Profile).add p = p := by
  cases p
  simp [add]

end Profile
end Highlight
