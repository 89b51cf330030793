/-
# Sessions

What lasts from one request to the next: the store of grammars, the registry,
the configuration in force with those it will go back to, the profiles being
taken, and the events since they were last read.

A tokenizer is made for a configuration, or for the one in force, and keeps it.
Each of its calls is a run, over any text and by any grammar; what the run has
done is added to the innermost profile being taken, if one is when the call
begins.  A text can also be cut without a tokenizer at hand: one is made for it.

Requests come one after the other.  There are no threads: nothing has to lock the
grammars while one of them is resolved, and there is one configuration in force
and one stack of profiles, not one for each thread.  Profiles keep counts only,
and no times.
-/

import Highlight.Tokenizer.Basic
import Highlight.Language.Css
import Highlight.Language.Registry

namespace Highlight

/-- The state of the library between requests. -/
structure Session where
  store : Store
  registry : Registry
  config : Config := {}
  /-- The configurations to go back to, the next one first. -/
  previous : List Config := []
  /-- The profiles being taken, the innermost one first. -/
  profiles : List Profile := []
  events : List Event := []
  /-- The levels of recursion that the host can give to a run. -/
  frames : Option Nat

namespace Session

/-- A session with nothing but the built-in language. -/
def initial (frames : Option Nat) : Session where
  store := Css.store
  registry := ({} : Registry).bind "css" Css.sheetId
  frames := frames

/-- Adds a grammar and returns its number. -/
def addGrammar (s : Session) (g : Grammar) : GrammarId × Session :=
  let (id, store) := s.store.add g
  (id, { s with store })

/-- Changes the fallback of a grammar. -/
def setRest (s : Session) (id : GrammarId) (rest : Option Ref) : Session :=
  { s with store := s.store.setRest id rest }

/-- Resolves a grammar. -/
def resolve (s : Session) (ref : Ref) : Except Failure Resolution × Session :=
  match s.store.resolve ref with
  | .error failure => (.error failure, s)
  | .ok (resolution, store, events) =>
    (.ok resolution, { s with store, events := s.events ++ events })

/-- Puts a configuration in force. -/
def setConfig (s : Session) (config : Config) : Session :=
  { s with config }

/-- Puts a configuration in force until it is popped. -/
def pushConfig (s : Session) (config : Config) : Session :=
  { s with config, previous := s.config :: s.previous }

/-- Goes back to the configuration that was in force at the last push. -/
def popConfig (s : Session) : Session :=
  match s.previous with
  | [] => s
  | config :: previous => { s with config, previous }

/-- Begins to take a profile. -/
def pushProfile (s : Session) : Session :=
  { s with profiles := {} :: s.profiles }

/-- Ends taking the innermost profile. -/
def popProfile (s : Session) : Session :=
  { s with profiles := s.profiles.tail }

/-- The innermost profile being taken. -/
def profile? (s : Session) : Option Profile :=
  s.profiles.head?

/-- The events since they were last read. -/
def readEvents (s : Session) : List Event × Session :=
  (s.events, { s with events := [] })

/-- Binds names to a grammar. -/
def register (s : Session) (name : String) (ref : Ref) (aliases : List String) :
    Except Registry.Error GrammarId × Session :=
  match s.registry.register name ref aliases with
  | .error e => (.error e, s)
  | .ok (id, registry) => (.ok id, { s with registry })

/-- Makes a tokenizer, for the configuration in force unless another is given. -/
def newTokenizer (s : Session) (config : Option Config := none) : Tokenizer where
  config := config.getD s.config

/-- Cuts a text into chunks with a tokenizer, which may have been used before. -/
def call (s : Session) (t : Tokenizer) (text : Text) (ref : Ref) (clock : Clock := .ticking) :
    Except Failure (List Chunk) × Tokenizer × Session :=
  let (report, t) := t.call clock s.profile?.isSome s.frames s.store text ref
  let profiles :=
    if t.profiled then s.profiles.modifyHead (·.add report.run.profile) else s.profiles
  (report.result, t,
    { s with store := report.run.store, profiles, events := s.events ++ report.run.events })

/-- Cuts a text into chunks, with the configuration in force unless another is
given. -/
def tokenize (s : Session) (text : Text) (ref : Ref) (config : Option Config := none)
    (clock : Clock := .ticking) : Except Failure (List Chunk) × Session :=
  let (result, _, s) := s.call (s.newTokenizer config) text ref clock
  (result, s)

end Session
end Highlight
