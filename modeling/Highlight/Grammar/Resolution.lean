/-
# Resolving one grammar

Entries are merged with those of the fallback, one level deep: a type that
both declare keeps its place and takes the fallback's declaration, and types
that only the fallback declares follow in its order.  Then every alternative
is compiled and checked, in order; the first defect ends the attempt.
-/

import Highlight.Grammar.Basic

namespace Highlight

/-- Entries by token type, in order. -/
abbrev Entries := List (String × Declaration)

namespace Entries

/-- Declares a type: in its place if it has one, else at the end. -/
def put (type : String) (declaration : Declaration) : Entries → Entries
  | [] => [(type, declaration)]
  | entry :: rest =>
    if entry.1 = type then (type, declaration) :: rest
    else entry :: put type declaration rest

/-- Own entries, overridden and extended by those of a fallback. -/
def merge (own fallback : Entries) : Entries :=
  fallback.foldl (fun merged entry => put entry.1 entry.2 merged) own

end Entries

/-- Compiles an expression that stands under a token type. -/
def Expression.compile (type : String) : Expression → Except Failure Pattern
  | .source text =>
    match Pattern.compile text with
    | .ok pattern => .ok pattern
    | .error e => .error (.patternRejected type text (e.message text))
  | .compiled pattern => .ok pattern
  | .bytes _ => .error (.invalidGrammar (some type) .bytesPattern)

/-- Compiles what stands where a pattern should. -/
def Operand.compile (type : String) : Operand → Except Failure Pattern
  | .expression e => e.compile type
  | .absent => .error (.invalidGrammar (some type) .noPattern)
  | .other kind => .error (.invalidGrammar (some type) (.notPattern kind))

/-- Compiles a rule: its pattern first, then whether it has the capture that
it takes for context, then its nested grammar. -/
def Rule.compile (type : String) (r : Rule Operand Ref) : Except Failure CompiledRule := do
  let pattern ← r.pattern.compile type
  if r.lookbehind && pattern.groups = 0 then
    throw (.invalidGrammar (some type) .noCapture)
  let inside ← match r.inside with
    | none => pure none
    | some (.grammar id) => pure (some id)
    | some (.other kind) => throw (.invalidGrammar (some type) (.insideNotGrammar kind))
  return { pattern, lookbehind := r.lookbehind, greedy := r.greedy, inside, display := r.display }

/-- Compiles an alternative.  A pattern on its own is a rule with no
options. -/
def Alternative.compile (type : String) : Alternative → Except Failure CompiledRule
  | .pattern e => Rule.compile type { pattern := .expression e }
  | .rule r => r.compile type
  | .other kind => .error (.invalidGrammar (some type) (.notAlternative kind))

/-- Compiles a declaration to its rules, in order. -/
def Declaration.compile (type : String) : Declaration → Except Failure (List CompiledRule)
  | .single (.other kind) => .error (.invalidGrammar (some type) (.notEntry kind))
  | .single alternative => do return [← alternative.compile type]
  | .several alternatives => alternatives.mapM (·.compile type)

/-- Compiles entries in order. -/
def Entries.compile (entries : Entries) :
    Except Failure (List (String × List CompiledRule)) :=
  entries.mapM fun entry => do return (entry.1, ← entry.2.compile entry.1)

namespace Resolution

/-- The grammars that the rules of a resolution lead to, in order. -/
def insides (r : Resolution) : List GrammarId :=
  r.entries.flatMap fun entry => entry.2.filterMap (·.inside)

end Resolution
end Highlight
