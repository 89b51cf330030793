/-
# Stores of grammars

Grammars refer to each other by their numbers in a store, so that two grammars
can be each other's fallback, or a rule of a grammar can lead back to it.

Resolving a grammar resolves everything that can be reached from it through
fallbacks and nested grammars in one go.  A worklist holds the grammars still
to be looked at; what has been found is published only when the list is empty,
so that a defect anywhere leaves the store as it was.  Each round looks at a
grammar that no earlier round looked at, so there are no more rounds than
grammars, and one more to find the list empty.
-/

import Highlight.Grammar.Resolution
import Highlight.Event

namespace Highlight

/-- Grammars by their numbers. -/
structure Store where
  grammars : Array Grammar := #[]
  deriving DecidableEq, Repr

namespace Store

/-- The grammar of a number. -/
def get? (s : Store) (id : GrammarId) : Option Grammar :=
  s.grammars[id]?

/-- Adds a grammar and returns its number. -/
def add (s : Store) (g : Grammar) : GrammarId × Store :=
  (s.grammars.size, ⟨s.grammars.push g⟩)

/-- Changes the fallback of a grammar. -/
def setRest (s : Store) (id : GrammarId) (rest : Option Ref) : Store :=
  ⟨s.grammars.modify id (·.setRest rest)⟩

/-- The entries that a fallback contributes. -/
def fallbackEntries (s : Store) : Option Ref → Except Failure Entries
  | none => .ok []
  | some (.other kind) => .error (.invalidGrammar none (.restNotGrammar kind))
  | some (.grammar id) => .ok (((s.get? id).map (·.entries)).getD [])

/-- What a grammar resolves to, whether or not it has a resolution. -/
def resolveOne (s : Store) (g : Grammar) : Except Failure Resolution := do
  let fallback ← s.fallbackEntries g.rest
  let entries ← (Entries.merge g.entries fallback).compile
  return { entries, name := g.name }

/-- The grammars next in line after one has been resolved: its nested grammars
from the last to the first, then its fallback. -/
def successors (g : Grammar) (r : Resolution) : List GrammarId :=
  r.insides.reverse ++
    match g.rest with
    | some (.grammar id) => [id]
    | _ => []

/-- The grammars that can be reached from the pending ones, with their
resolutions, in the order they were looked at.  A grammar that has a
resolution is not looked into: what it leads to has been resolved with it. -/
def explore (s : Store) :
    Nat → List (GrammarId × Resolution) → List GrammarId →
      Except Failure (List (GrammarId × Resolution))
  | 0, found, _ => .ok found
  | fuel + 1, found, pending =>
    match pending.dropWhile fun id => (found.lookup id).isSome with
    | [] => .ok found
    | id :: pending =>
      match s.get? id with
      | none => explore s fuel found pending
      | some g =>
        match g.resolution with
        | some r => explore s fuel (found ++ [(id, r)]) pending
        | none =>
          match s.resolveOne g with
          | .error e => .error e
          | .ok r => explore s fuel (found ++ [(id, r)]) (successors g r ++ pending)

/-- Gives a grammar its resolution, unless it has one, and reports it. -/
def publish (s : Store) (id : GrammarId) (r : Resolution) : Store × List Event :=
  match s.get? id with
  | some g =>
    match g.resolution with
    | some _ => (s, [])
    | none =>
      let resolved := { g with resolution := some r, edition := g.edition + 1 }
      (⟨s.grammars.setIfInBounds id resolved⟩, [.resolved g.name r.entries.length r.ruleCount])
  | none => (s, [])

/-- Publishes what has been found, in order. -/
def publishAll (s : Store) : List (GrammarId × Resolution) → Store × List Event
  | [] => (s, [])
  | (id, r) :: rest =>
    let (s, events) := s.publish id r
    let (s, more) := s.publishAll rest
    (s, events ++ more)

/-- The resolution of a grammar: the one it has, or the one it gets together
with everything that can be reached from it. -/
def resolve (s : Store) (ref : Ref) : Except Failure (Resolution × Store × List Event) :=
  match ref with
  | .other kind => .error (.invalidGrammar none (.notGrammar kind))
  | .grammar id =>
    match (s.get? id).bind (·.resolution) with
    | some r => .ok (r, s, [])
    | none =>
      match s.explore (s.grammars.size + 1) [] [id] with
      | .error e => .error e
      | .ok found =>
        let (s, events) := s.publishAll found
        match (s.get? id).bind (·.resolution) with
        | some r => .ok (r, s, events)
        | none => .error (.invalidGrammar none (.notGrammar .nothing))

/-- Whether a grammar has a resolution. -/
def isResolved (s : Store) (id : GrammarId) : Bool :=
  ((s.get? id).bind (·.resolution)).isSome

end Store
end Highlight
