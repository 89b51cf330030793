/-
# The registry of languages

Grammars under names.  Names are compared in lower case; a name that is
registered again is bound anew.
-/

import Highlight.Text.Case
import Highlight.Grammar.Basic

namespace Highlight

/-- Grammars under lower-case names, each name once. -/
structure Registry where
  entries : List (String × GrammarId) := []
  deriving DecidableEq, Repr

namespace Registry

/-- Why a registry refuses. -/
inductive Error where
  /-- No grammar has the name; these are the names there are. -/
  | unknown (name : String) (available : List String)
  /-- What was to be registered is no grammar. -/
  | notGrammar (name : String) (found : Kind)
  deriving DecidableEq, Repr

/-- The wording of a refusal. -/
def Error.message : Error → String
  | .unknown name available =>
    "Unknown language: " ++ quotedName name ++ ". Available: " ++ ", ".intercalate available
  | .notGrammar name found =>
    "Expected a Grammar for " ++ quotedName name ++ ", got " ++ found.name

/-- The key of a name. -/
def key (name : String) : String :=
  String.ofList (Text.lower name.toList)

/-- The keys in the order of their code points. -/
def keys (r : Registry) : List String :=
  (r.entries.map (·.1)).mergeSort fun a b => decide (a ≤ b)

/-- Whether a grammar has the name. -/
def contains (r : Registry) (name : String) : Bool :=
  (r.entries.lookup (key name)).isSome

/-- The grammar of a name. -/
def find (r : Registry) (name : String) : Except Error GrammarId :=
  match r.entries.lookup (key name) with
  | some id => .ok id
  | none => .error (.unknown name r.keys)

/-- Binds one name. -/
def bind (r : Registry) (name : String) (id : GrammarId) : Registry :=
  ⟨(key name, id) :: r.entries.filter (·.1 ≠ key name)⟩

/-- Binds a name and further names to one grammar. -/
def register (r : Registry) (name : String) (ref : Ref) (aliases : List String) :
    Except Error (GrammarId × Registry) :=
  match ref with
  | .grammar id => .ok (id, (name :: aliases).foldl (fun r name => r.bind name id) r)
  | .other kind => .error (.notGrammar name kind)

/-- A name is found as soon as it has been bound, in whatever case it is
written. -/
theorem find_bind {r : Registry} {name other : String} {id : GrammarId}
    (h : key other = key name) : (r.bind name id).find other = .ok id := by
  simp [find, bind, h]

end Registry
end Highlight
