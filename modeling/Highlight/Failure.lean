/-
# Failures

Why a grammar cannot be used, or why a run was given up.  Failures fall into
classes, and every class but the most general one has a class above it: who
handles a class handles the classes below it.

Two constructors stand for states that a run never reaches: a handle that is
not live (`fault`), and a walk that goes on for more steps than a walk can
have (`runaway`).
-/

import Highlight.Text.Quoted
import Highlight.Buffer
import Highlight.Config

namespace Highlight

/-- What a value is that stands where it does not belong. -/
inductive Kind where
  | nothing
  | truth
  | integer
  | fraction
  | text
  | list
  | tuple
  | bytes
  | mapping
  | grammar
  | pattern
  | rule
  deriving DecidableEq, Repr

/-- The name of a kind of value. -/
def Kind.name : Kind → String
  | .nothing => "NoneType"
  | .truth => "bool"
  | .integer => "int"
  | .fraction => "float"
  | .text => "str"
  | .list => "list"
  | .tuple => "tuple"
  | .bytes => "bytes"
  | .mapping => "dict"
  | .grammar => "Grammar"
  | .pattern => "Pattern"
  | .rule => "Rule"

/-- What is wrong with a grammar or with one of its entries. -/
inductive Defect where
  | notGrammar (found : Kind)
  | restNotGrammar (found : Kind)
  | insideNotGrammar (found : Kind)
  | notEntry (found : Kind)
  | notAlternative (found : Kind)
  | notPattern (found : Kind)
  | noPattern
  | bytesPattern
  | noCapture
  /-- A defect described by who found it. -/
  | described (text : String)
  deriving DecidableEq, Repr

/-- The wording of a defect. -/
def Defect.text : Defect → String
  | .notGrammar found => "expected a Grammar, got " ++ found.name
  | .restNotGrammar found => "rest must be a Grammar, got " ++ found.name
  | .insideNotGrammar found => "inside must be a Grammar, got " ++ found.name
  | .notEntry found =>
    "expected a pattern, a Rule or a sequence of them, got " ++ found.name
  | .notAlternative found => "alternative must be a pattern or a Rule, got " ++ found.name
  | .notPattern found => "pattern must be a string or compiled pattern, got " ++ found.name
  | .noPattern => "rule has no pattern"
  | .bytesPattern => "byte patterns cannot match text"
  | .noCapture => "lookbehind rule needs a capture group"
  | .described text => text

/-- The allowance that a run has used up. -/
inductive Budget where
  | steps (most : Int)
  | time (allowed : Decimal)
  /-- An allowance described by who measured it. -/
  | described (text : String)
  deriving DecidableEq, Repr

/-- The wording of a used-up allowance. -/
def Budget.text : Budget → String
  | .steps most => "step budget of " ++ toString most ++ " pattern attempts exhausted"
  | .time allowed => "deadline of " ++ allowed.printed ++ "s exceeded"
  | .described text => text

/-- Why a grammar or a run failed. -/
inductive Failure where
  /-- An entry, or the grammar as a whole, cannot be turned into rules. -/
  | invalidGrammar (type : Option String) (defect : Defect)
  /-- A pattern does not compile. -/
  | patternRejected (type : String) (source : Text) (reason : String)
  /-- The recursion went too deep; the note replaces the usual wording. -/
  | depthExceeded (depth limit : Int) (note : Option String)
  /-- The attempts or the time ran out. -/
  | budgetExceeded (budget : Budget)
  /-- There are more chunks than characters. -/
  | overrun (chunks length : Int)
  /-- Some allowance ran out. -/
  | exhausted (text : String)
  /-- Something else failed. -/
  | general (text : String)
  /-- A handle was not live. -/
  | fault (fault : Buffer.Fault)
  /-- A walk did not end. -/
  | runaway
  deriving DecidableEq, Repr

namespace Failure

/-- The wording of a failure. -/
def message : Failure → String
  | .invalidGrammar none defect => "Grammar: " ++ defect.text
  | .invalidGrammar (some type) defect =>
    "Grammar entry " ++ quotedName type ++ ": " ++ defect.text
  | .patternRejected type source reason =>
    "Pattern for " ++ quotedName type ++ " failed to compile: " ++ reason ++ " (" ++
      String.ofList source.quoted ++ ")"
  | .depthExceeded depth limit note =>
    match note with
    | none | some "" =>
      "Recursion depth " ++ toString depth ++ " exceeds limit " ++ toString limit
    | some note => note
  | .budgetExceeded budget => budget.text
  | .overrun chunks length =>
    "Chunk sequence grew to " ++ toString chunks ++ " elements for " ++ toString length ++
      " characters of input"
  | .exhausted text => text
  | .general text => text
  | .fault cause => cause.message
  | .runaway => "The walk over the chunks did not end"

end Failure

/-- The classes that failures are handled by. -/
inductive FailureClass where
  | general
  | invalidGrammar
  | patternRejected
  | exhausted
  | depthExceeded
  | budgetExceeded
  | overrun
  deriving DecidableEq, Repr

namespace FailureClass

/-- All classes, each after the class above it. -/
def all : List FailureClass :=
  [general, invalidGrammar, patternRejected, exhausted, depthExceeded, budgetExceeded, overrun]

/-- The class above a class. -/
def parent? : FailureClass → Option FailureClass
  | .general => none
  | .invalidGrammar | .patternRejected | .exhausted | .overrun => some .general
  | .depthExceeded | .budgetExceeded => some .exhausted

/-- A class and the classes above it. -/
def ancestors : FailureClass → List FailureClass
  | .general => [.general]
  | .invalidGrammar => [.general, .invalidGrammar]
  | .patternRejected => [.general, .patternRejected]
  | .exhausted => [.general, .exhausted]
  | .depthExceeded => [.general, .exhausted, .depthExceeded]
  | .budgetExceeded => [.general, .exhausted, .budgetExceeded]
  | .overrun => [.general, .overrun]

/-- The ancestors of a class are those of its parent, and itself. -/
theorem ancestors_eq (c : FailureClass) :
    c.ancestors = (c.parent?.map ancestors).getD [] ++ [c] := by
  cases c <;> rfl

end FailureClass

/-- The class of a failure. -/
def Failure.toClass : Failure → FailureClass
  | .invalidGrammar .. => .invalidGrammar
  | .patternRejected .. => .patternRejected
  | .depthExceeded .. => .depthExceeded
  | .budgetExceeded .. => .budgetExceeded
  | .overrun .. => .overrun
  | .exhausted .. => .exhausted
  | .general .. | .fault .. | .runaway => .general

end Highlight
