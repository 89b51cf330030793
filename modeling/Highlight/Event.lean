/-
# Events

What the library reports while it works: a grammar that has been resolved, and
the reasons for which runs are given up.  An event has a level, belongs to a
channel, and has a wording.
-/

import Highlight.Text.Quoted
import Highlight.Config

namespace Highlight

/-- The name of the channel that all others are below. -/
def rootChannel : String := "glint"

/-- The full name of a channel: below the root, unless it is there already. -/
def channelName (name : String) : String :=
  let root := rootChannel.toList
  if name.toList = root || (root ++ ['.']).isPrefixOf name.toList then name
  else rootChannel ++ "." ++ name

/-- How much an event matters. -/
inductive Level where
  | debug
  | warning
  deriving DecidableEq, Repr

/-- Something worth a record. -/
inductive Event where
  /-- A grammar was resolved to a number of types and rules. -/
  | resolved (name : Option String) (types rules : Nat)
  /-- There are more chunks than characters. -/
  | overrun (type : String) (chunks length : Int)
  /-- The attempts ran out. -/
  | stepsExhausted (most : Int)
  /-- The time ran out. -/
  | timeExhausted (allowed : Decimal)
  /-- The recursion passed the limit. -/
  | depthExceeded (depth limit : Int)
  /-- The recursion passed what the host allows. -/
  | stackExhausted (depth limit : Int)
  deriving DecidableEq, Repr

namespace Event

/-- The level of an event: only resolutions are in the order of things. -/
def level : Event → Level
  | .resolved .. => .debug
  | _ => .warning

/-- The channel of an event. -/
def channel : Event → String
  | .resolved .. => channelName "grammar"
  | _ => channelName "tokenizer"

/-- The wording for a recursion that passed what the host allows. -/
def stackText (depth limit : Int) : String :=
  "Interpreter stack exhausted at recursion depth " ++ toString depth ++ " (limit " ++
    toString limit ++ ")"

/-- The wording of an event.  A grammar without a name is shown by an address,
which is left open. -/
def text : Event → String
  | .resolved name types rules =>
    let shown := match name with
      | none | some "" => "0x?"
      | some name => name
    "Resolved grammar " ++ shown ++ ": " ++ toString types ++ " types, " ++ toString rules ++
      " rules"
  | .overrun type chunks length =>
    "Chunk sequence overrun on " ++ quotedName type ++ ": " ++ toString chunks ++
      " chunks for " ++ toString length ++ " characters"
  | .stepsExhausted most =>
    "Step budget of " ++ toString most ++ " pattern attempts exhausted"
  | .timeExhausted allowed => "Tokenize deadline of " ++ allowed.printed ++ "s exceeded"
  | .depthExceeded depth limit =>
    "Recursion depth " ++ toString depth ++ " exceeds limit " ++ toString limit
  | .stackExhausted depth limit => stackText depth limit

end Event
end Highlight
