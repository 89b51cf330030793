/-
# Grammars

A grammar is an ordered list of entries, each a token type with one rule or
several alternatives, and may name a fallback grammar in `rest`.  Its order is
its priority.

Grammars are declared loosely: where a pattern, a rule or a grammar should
stand, a value of another kind may stand too.  Such values are carried as what
they are, and found out when the grammar is resolved.

A *resolution* is a grammar made ready for use: its own entries and those of
its fallback in one list, every pattern compiled, every value checked.  A
grammar keeps its resolution until its fallback changes.
-/

import Highlight.Pattern.Match
import Highlight.Failure

namespace Highlight

/-- The number of a grammar in its store. -/
abbrev GrammarId := Nat

/-- What stands where a grammar should: a grammar, or something else. -/
inductive Ref where
  | grammar (id : GrammarId)
  | other (kind : Kind)
  deriving DecidableEq, Repr

/-- The kind of what is referred to. -/
def Ref.kind : Ref → Kind
  | .grammar _ => .grammar
  | .other kind => kind

/-- A rule: a pattern, and what is done with its matches.  Before resolution
`π` and `γ` hold what was declared, afterwards compiled patterns and
grammars. -/
structure Rule (π γ : Type) where
  pattern : π
  /-- The first capture is context and does not belong to the match. -/
  lookbehind : Bool := false
  /-- Matches are sought in the whole text, across tokens made before. -/
  greedy : Bool := false
  /-- The grammar that cuts the matched text further. -/
  inside : Option γ := none
  /-- What the tokens are displayed as. -/
  display : Option String := none
  deriving DecidableEq, Repr

/-- A pattern as it may be declared. -/
inductive Expression where
  | source (text : Text)
  | compiled (pattern : Pattern)
  /-- A compiled pattern over bytes. -/
  | bytes (source : Text)
  deriving DecidableEq, Repr

/-- What stands where the pattern of a rule should. -/
inductive Operand where
  | expression (expression : Expression)
  | absent
  | other (kind : Kind)
  deriving DecidableEq, Repr

/-- What stands where an alternative of an entry should. -/
inductive Alternative where
  | pattern (expression : Expression)
  | rule (rule : Rule Operand Ref)
  | other (kind : Kind)
  deriving DecidableEq, Repr

/-- What is declared for a token type: one alternative, or several. -/
inductive Declaration where
  | single (alternative : Alternative)
  | several (alternatives : List Alternative)
  deriving DecidableEq, Repr

/-- A rule that is ready for use. -/
abbrev CompiledRule := Rule Pattern GrammarId

/-- A grammar that is ready for use. -/
structure Resolution where
  entries : List (String × List CompiledRule)
  name : Option String
  deriving DecidableEq, Repr

namespace Resolution

/-- The token types in order of priority. -/
def types (r : Resolution) : List String :=
  r.entries.map (·.1)

/-- The number of rules. -/
def ruleCount (r : Resolution) : Nat :=
  (r.entries.map (·.2.length)).foldr (· + ·) 0

end Resolution

/-- A grammar: its entries, its fallback, its name, and its resolution if it
has one.  `edition` counts the resolutions it has had. -/
structure Grammar where
  entries : List (String × Declaration) := []
  rest : Option Ref := none
  name : Option String := none
  resolution : Option Resolution := none
  edition : Nat := 0
  deriving DecidableEq, Repr

namespace Grammar

/-- The token types in order of priority. -/
def types (g : Grammar) : List String :=
  g.entries.map (·.1)

/-- What is declared for a token type. -/
def get? (g : Grammar) (type : String) : Option Declaration :=
  g.entries.lookup type

/-- Whether something is declared for a token type. -/
def contains (g : Grammar) (type : String) : Bool :=
  (g.get? type).isSome

/-- Changes the fallback.  A resolution made with the old one is dropped. -/
def setRest (g : Grammar) (rest : Option Ref) : Grammar :=
  { g with rest, resolution := none }

/-- The printed form of a grammar: its name if it has one, its types, and
whether it has a fallback. -/
def printed (g : Grammar) : String :=
  let label := match g.name with
    | none | some "" => ""
    | some name => quotedName name ++ ", "
  let rest := if g.rest.isSome then ", rest=..." else ""
  "Grammar(" ++ label ++ quotedNames g.types ++ rest ++ ")"

end Grammar
end Highlight
