/-
# Lexemes of a pattern

A pattern's source is first cut into *signs*: single characters, and
backslashes together with the character after them.  The signs are then read
from left to right into *lexemes*: a set, an anchor, an opening parenthesis
with what follows its question mark, a quantifier, and so on.

An error is the last lexeme of its source: what follows it is not read.  It
stands in the list as a lexeme because the reader of the lexemes may find an
earlier error that needs more than one lexeme to see, such as a quantifier
with nothing before it.

A source may end in a backslash with no partner.  Whoever reads the sign
before it runs into that error, before anything is made of the sign.  Only a
closing parenthesis and a bar are looked at before they are read, so they keep
their meaning and the error follows them.

Under the switch `x` blanks between lexemes are skipped, and so is everything
from a number sign to the end of the line.  The switch holds for a group and
for the groups in it.

Three things are left out.  No character has a name, so that an escape by name
is an error whatever the name is.  A repeat is never too large to be counted.
And flags that are asked for from outside are not checked against those that
the source names.
-/

import Highlight.Text.Name
import Highlight.Pattern.Tree
import Highlight.Pattern.Error

namespace Highlight
namespace Pattern

/-- A character on its own, or a backslash and the character after it. -/
inductive Sign where
  | plain (c : Char)
  | escaped (c : Char)
  deriving DecidableEq, Repr

/-- The source text of a sign. -/
def Sign.text : Sign → Text
  | .plain c => [c]
  | .escaped c => ['\\', c]

/-- The switch that a sign stands for. -/
def Sign.switch? : Sign → Option Switch
  | .plain c => Switch.ofLetter? c
  | .escaped _ => none

/-- The signs of a source, and whether a backslash without a partner is left
at its end. -/
def signs : Text → List Sign × Bool
  | [] => ([], false)
  | ['\\'] => ([], true)
  | '\\' :: c :: rest => ((Sign.escaped c) :: (signs rest).1, (signs rest).2)
  | c :: rest => ((Sign.plain c) :: (signs rest).1, (signs rest).2)

/-- What a conditional group asks about: the capture of a name or of a
number. -/
inductive Condition where
  | named (name : Text)
  | numbered (index : Nat)
  deriving DecidableEq, Repr

/-- What an opening parenthesis opens. -/
inductive Opening where
  | plain
  | capture (name : Option Text)
  | look (behind negated : Bool)
  | atomic
  | under (change : Change)
  | conditional (condition : Condition)
  deriving DecidableEq, Repr

/-- A lexeme of a pattern. -/
inductive Lexeme where
  | any
  | set (set : CharSet)
  | anchor (anchor : Anchor)
  | reference (group : Nat)
  | namedReference (name : Text)
  | opening (opening : Opening)
  /-- Switches for the whole pattern. -/
  | flags (on : List Switch)
  /-- A comment, or blanks that are skipped. -/
  | skip
  | bar
  | close
  | quantifier (least : Nat) (most : Option Nat)
  /-- The mark after a quantifier that changes its greed. -/
  | greed (greed : Greed)
  | error (error : Error)
  deriving DecidableEq, Repr

/-- A lexeme with the offsets where it starts and where it ends. -/
structure Placed where
  start : Nat
  stop : Nat
  lexeme : Lexeme
  deriving DecidableEq, Repr

/-- The signs still to be read, and the offset of the first of them. -/
structure Source where
  position : Nat
  rest : List Sign

/-- A reader of signs.  It leaves off where its error arose. -/
abbrev Reader := EStateM Error Source

namespace Reader

/-- The next sign, which is left in place. -/
def peek? : Reader (Option Sign) := do
  return (← get).rest.head?

/-- The next sign, which is taken. -/
def next? : Reader (Option Sign) := do
  match (← get).rest with
  | [] => return none
  | s :: rest =>
    modify fun source => ⟨source.position + s.text.length, rest⟩
    return some s

/-- Takes a given character if it is next, and tells whether it was. -/
def take (c : Char) : Reader Bool := do
  if (← peek?) = some (.plain c) then
    let _ ← next?
    return true
  else return false

/-- The offset of the next sign. -/
def position : Reader Nat := do
  return (← get).position

/-- Fails with a cause at an offset. -/
def fail {α : Type} (cause : Cause) (position : Nat) : Reader α :=
  throw ⟨cause, some position⟩

/-- Takes plain characters while they pass a test, up to a number of them. -/
def takeWhile (test : Char → Bool) : Nat → Reader Text
  | 0 => return []
  | n + 1 => do
    match ← peek? with
    | some (.plain c) =>
      if test c then
        let _ ← next?
        return c :: (← takeWhile test n)
      else return []
    | _ => return []

/-- Takes plain characters while they pass a test. -/
def takeAll (test : Char → Bool) : Reader Text := do
  takeWhile test (← get).rest.length

end Reader

open Reader

/-- The digits of a numeral by their values, in some base. -/
def numeral (base : Nat) (digits : Text) : Nat :=
  digits.foldl (fun n c => base * n + digitValue c) 0
where
  /-- The value of a digit up to `f`. -/
  digitValue (c : Char) : Nat :=
    if c.isDigit then c.toNat - 48
    else if 97 ≤ c.toNat then c.toNat - 87
    else c.toNat - 55

/-- The hexadecimal digits. -/
def isHexDigit (c : Char) : Bool :=
  c.isDigit || ('a' ≤ c && c ≤ 'f') || ('A' ≤ c && c ≤ 'F')

/-- The octal digits. -/
def isOctalDigit (c : Char) : Bool :=
  '0' ≤ c && c ≤ '7'

/-- The code point of an escape that names a control character. -/
def controlEscape? : Char → Option Nat
  | 'a' => some 7
  | 'f' => some 12
  | 'n' => some 10
  | 'r' => some 13
  | 't' => some 9
  | 'v' => some 11
  | _ => none

/-- The category and its negation that an escape names. -/
def categoryEscape? : Char → Option (Category × Bool)
  | 'd' => some (.digit, false)
  | 'D' => some (.digit, true)
  | 's' => some (.blank, false)
  | 'S' => some (.blank, true)
  | 'w' => some (.word, false)
  | 'W' => some (.word, true)
  | _ => none

/-- The number of digits of an escape by code point. -/
def codeEscape? : Char → Option Nat
  | 'x' => some 2
  | 'u' => some 4
  | 'U' => some 8
  | _ => none

/-- The anchor that an escape names. -/
def anchorEscape? : Char → Option Anchor
  | 'A' => some .textStart
  | 'Z' => some .textEnd
  | 'b' => some .boundary
  | 'B' => some .inner
  | _ => none

/-- The rest of an escape by code point, which has to have all its digits and
name a code point. -/
def readCode (letter : Char) (digits start : Nat) : Reader Nat := do
  let found ← takeWhile isHexDigit digits
  let escape := '\\' :: letter :: found
  if found.length ≠ digits then
    fail (.incompleteEscape escape) start
  else if 0x110000 ≤ numeral 16 found then
    fail (.badEscape escape) start
  else
    return numeral 16 found

/-- An escape that stands for the character itself, or none: letters and
digits are reserved. -/
def readSelf (c : Char) (start : Nat) : Reader Nat :=
  if c.isAlphanum then fail (.badEscape ['\\', c]) start else return c.toNat

/-- A text up to a closing character, which is taken too.  An empty one is
refused for the cause given. -/
def readUntil (close : Char) (missing : Cause) : Reader Text := do
  collect (← position) (← get).rest.length []
where
  /-- The signs before the closing character. -/
  collect (start : Nat) : Nat → Text → Reader Text
    | 0, name => unfinished start name
    | fuel + 1, name => do
      match ← next? with
      | none => unfinished start name
      | some s =>
        if s = .plain close then
          if name = [] then fail missing start else return name
        else collect start fuel (name ++ s.text)
  /-- A text that no closing character follows. -/
  unfinished (start : Nat) (name : Text) : Reader Text :=
    if name = [] then fail missing start
    else fail (.unterminatedName close) start

/-- The rest of an escape by the name of a character.  No names are
defined. -/
def readNamed (start : Nat) : Reader Nat := do
  if !(← take '{') then
    fail .missingBrace (← position)
  else
    fail (.undefinedCharacter (← readUntil '}' .missingCharacterName)) start

/-- The code point or category of an escape inside a set. -/
def readSetEscape (c : Char) (start : Nat) : Reader (Nat ⊕ (Category × Bool)) := do
  if c = 'b' then
    return .inl 8
  else if let some n := controlEscape? c then
    return .inl n
  else if let some category := categoryEscape? c then
    return .inr category
  else if let some digits := codeEscape? c then
    return .inl (← readCode c digits start)
  else if c = 'N' then
    return .inl (← readNamed start)
  else if isOctalDigit c then
    let digits := c :: (← takeWhile isOctalDigit 2)
    if 0o377 < numeral 8 digits then
      fail (.octalTooLarge ('\\' :: digits)) start
    else
      return .inl (numeral 8 digits)
  else
    return .inl (← readSelf c start)

/-- A member of a set that is not part of a range, or an end of one. -/
def readMember (s : Sign) (start : Nat) : Reader (Nat ⊕ (Category × Bool)) :=
  match s with
  | .plain c => return .inl c.toNat
  | .escaped c => readSetEscape c start

/-- The item of a member that is not part of a range. -/
def itemOf : Nat ⊕ (Category × Bool) → Item
  | .inl n => .range n n
  | .inr (kind, negated) => .category kind negated

/-- The items of a set whose bracket opened at `start`.  A closing bracket
that comes first is a member; a hyphen before the closing bracket too. -/
def readItems (start : Nat) : Nat → List Item → Reader (List Item)
  | 0, _ => do fail .unterminatedSet start
  | fuel + 1, items => do
    let place ← position
    match ← next? with
    | none => fail .unterminatedSet start
    | some s =>
      if s = .plain ']' && !items.isEmpty then
        return items.reverse
      else
        let first ← readMember s place
        if ← take '-' then
          let place ← position
          match ← next? with
          | none => fail .unterminatedSet start
          | some t =>
            if t = .plain ']' then
              return (Item.range 45 45 :: itemOf first :: items).reverse
            else
              let last ← readMember t place
              match first, last with
              | .inl lo, .inl hi =>
                if hi < lo then refuse s t else readItems start fuel (.range lo hi :: items)
              | _, _ => refuse s t
        else
          readItems start fuel (itemOf first :: items)
where
  /-- A range that is none.  It is shown by its two signs, and the offset is
  as far back as they are long. -/
  refuse (s t : Sign) : Reader (List Item) := do
    fail (.badRange s.text t.text) ((← position) - (s.text.length + 1 + t.text.length))

/-- A set whose opening bracket has been taken. -/
def readSet (start : Nat) : Reader CharSet := do
  let negated ← take '^'
  let items ← readItems start ((← get).rest.length + 1) []
  return ⟨negated, items⟩

/-- An escape outside a set: an anchor, a set, or a reference to a group.
Three octal digits are a code point, fewer are the number of a group. -/
def readEscape (c : Char) (start : Nat) : Reader Lexeme := do
  if let some anchor := anchorEscape? c then
    return .anchor anchor
  else if let some (kind, negated) := categoryEscape? c then
    return .set (.ofCategory kind negated)
  else if let some n := controlEscape? c then
    return .set (.single n)
  else if let some digits := codeEscape? c then
    return .set (.single (← readCode c digits start))
  else if c = 'N' then
    return .set (.single (← readNamed start))
  else if c = '0' then
    return .set (.single (numeral 8 (← takeWhile isOctalDigit 2)))
  else if c.isDigit then
    let second ← takeWhile Char.isDigit 1
    let third ←
      if second ≠ [] && (c :: second).all isOctalDigit then takeWhile isOctalDigit 1
      else pure []
    let digits := c :: (second ++ third)
    if third = [] then
      return .reference (numeral 10 digits)
    else if 0o377 < numeral 8 digits then
      fail (.octalTooLarge ('\\' :: digits)) start
    else
      return .set (.single (numeral 8 digits))
  else
    return .set (.single (← readSelf c start))

/-- The name of a group up to a closing character, which is taken too. -/
def readName (close : Char) : Reader Text := do
  let start ← position
  let name ← readUntil close .missingName
  if Text.isName name then return name else fail (.badName name) start

/-- The numbers of groups are below this one. -/
def groupLimit : Nat := 0x3fffffff

/-- The condition of a conditional group, up to its closing parenthesis. -/
def readCondition : Reader Condition := do
  let start ← position
  let name ← readUntil ')' .missingName
  if Text.isName name then
    return .named name
  else if !name.all Char.isDigit then
    fail (.badName name) start
  else
    let index := numeral 10 name
    if index = 0 then fail .badGroupNumber start
    else if groupLimit ≤ index then fail (.invalidReference index) start
    else return .numbered index

/-- Refuses a sign where the letter of a flag should be.  A letter is an
unknown flag; before anything else something is missing. -/
def refuseFlag {α : Type} (s : Sign) (missing : Cause) (place : Nat) : Reader α :=
  match s with
  | .plain c => fail (if Text.isLetter c then .unknownFlag else missing) place
  | .escaped _ => fail missing place

/-- The switches that are turned on, the first of which has been taken, and
the character that ends them. -/
def readOn : Nat → Switch → List Switch → Reader (List Switch × Char)
  | 0, _, _ => do fail .missingFlagEnd (← position)
  | fuel + 1, switch, on => do
    let place ← position
    if switch = .locale then
      fail (.badFlags .locale) place
    else if switch.isSelection && on.any (fun other => other.isSelection && other != switch) then
      fail (.badFlags .selections) place
    else
      match ← next? with
      | none => fail .missingFlagEnd place
      | some (.plain ')') => return (switch :: on, ')')
      | some (.plain '-') => return (switch :: on, '-')
      | some (.plain ':') => return (switch :: on, ':')
      | some s =>
        match s.switch? with
        | some another => readOn fuel another (switch :: on)
        | none => refuseFlag s .missingFlagEnd place

/-- The switches that are turned off, up to a colon.  `missing` tells what is
missing if something else comes. -/
def readOff : Nat → Cause → List Switch → Reader (List Switch)
  | 0, missing, _ => do fail missing (← position)
  | fuel + 1, missing, off => do
    let place ← position
    match ← next? with
    | none => fail missing place
    | some s =>
      if s = .plain ':' && !off.isEmpty then
        return off
      else
        match s.switch? with
        | some switch =>
          if switch.isSelection then fail (.badFlags .selectionOff) (← position)
          else readOff fuel .missingColon (switch :: off)
        | none => refuseFlag s missing place

/-- A group of flags, of which the first letter has been taken, or a hyphen
instead. -/
def readFlags (first : Option Switch) : Reader Lexeme := do
  let fuel := (← get).rest.length + 1
  let (on, stop) ← match first with
    | none => pure ([], '-')
    | some switch => readOn fuel switch []
  if stop = ')' then
    return .flags on
  else if on.contains .template then
    fail (.badFlags .globalOn) ((← position) - 1)
  else
    let off ← if stop = '-' then readOff fuel .missingFlag [] else pure []
    if off.contains .template then
      fail (.badFlags .globalOff) ((← position) - 1)
    else if on.any off.contains then
      fail (.badFlags .onAndOff) ((← position) - 1)
    else
      return .opening (.under ⟨on, off⟩)

/-- A comment up to its closing parenthesis. -/
def readComment (start : Nat) : Nat → Reader Lexeme
  | 0 => do fail .unterminatedComment start
  | fuel + 1 => do
    match ← next? with
    | none => fail .unterminatedComment start
    | some s => if s = .plain ')' then return .skip else readComment start fuel

/-- What follows an opening parenthesis, which has been taken. -/
def readOpening (start : Nat) : Reader Lexeme := do
  if !(← take '?') then
    return .opening (.capture none)
  match ← next? with
  | none => fail .unexpectedEnd (← position)
  | some (.plain ':') => return .opening .plain
  | some (.plain '=') => return .opening (.look false false)
  | some (.plain '!') => return .opening (.look false true)
  | some (.plain '<') =>
    match ← next? with
    | none => fail .unexpectedEnd (← position)
    | some (.plain '=') => return .opening (.look true false)
    | some (.plain '!') => return .opening (.look true true)
    | some s => fail (.unknownExtension ('<' :: s.text)) (start + 1)
  | some (.plain 'P') =>
    if ← take '<' then
      return .opening (.capture (some (← readName '>')))
    else if ← take '=' then
      return .namedReference (← readName ')')
    else
      match ← next? with
      | none => fail .unexpectedEnd (← position)
      | some s => fail (.unknownExtension ('P' :: s.text)) (start + 1)
  | some (.plain '#') => readComment start ((← get).rest.length + 1)
  | some (.plain '(') => return .opening (.conditional (← readCondition))
  | some (.plain '>') => return .opening .atomic
  | some (.plain '-') => readFlags none
  | some s =>
    match s.switch? with
    | some switch => readFlags (some switch)
    | none => fail (.unknownExtension s.text) (start + 1)

/-- The bounds of a quantifier in braces, whose opening brace has been taken.
Anything else leaves the signs in place: the brace is then a character. -/
def readBounds : Reader (Option (Nat × Option Nat)) := do
  let saved ← get
  if (← peek?) = some (.plain '}') then
    return none
  let least ← takeAll Char.isDigit
  let most ← if ← take ',' then takeAll Char.isDigit else pure least
  if ← take '}' then
    let bounds := (numeral 10 least, if most = [] then none else some (numeral 10 most))
    if bounds.2.any (· < bounds.1) then
      fail .leastOverMost saved.position
    else
      return some bounds
  else
    set saved
    return none

/-- The mark that changes the greed of the quantifier before it. -/
def greedMark? : Sign → Option Greed
  | .plain '?' => some .lazy
  | .plain '+' => some .possessive
  | _ => none

/-- The lexeme that a sign starts, which has been taken. -/
def readLexeme (s : Sign) (start : Nat) : Reader Lexeme :=
  match s with
  | .escaped c => readEscape c start
  | .plain '.' => return .any
  | .plain '^' => return .anchor .lineStart
  | .plain '$' => return .anchor .lineEnd
  | .plain '|' => return .bar
  | .plain ')' => return .close
  | .plain '(' => readOpening start
  | .plain '[' => do return .set (← readSet start)
  | .plain '*' => return .quantifier 0 none
  | .plain '+' => return .quantifier 1 none
  | .plain '?' => return .quantifier 0 (some 1)
  | .plain '{' => do
    match ← readBounds with
    | some (least, most) => return .quantifier least most
    | none => return .set (.single 123)
  | .plain c => return .set (.single c.toNat)

/-- What is skipped under the switch `x`, if a sign starts something of the
kind: a blank, or a comment up to the end of its line. -/
def skipped? (s : Sign) (after : Source) : Option Source :=
  match s with
  | .plain '#' => some (afterLine after.rest after.position)
  | .plain c => if Text.isAsciiBlank c then some after else none
  | .escaped _ => none
where
  /-- The source after the next line feed. -/
  afterLine : List Sign → Nat → Source
    | [], position => ⟨position, []⟩
    | s :: rest, position =>
      if s = .plain '\n' then ⟨position + 1, rest⟩
      else afterLine rest (position + s.text.length)

/-- What the reader of lexemes has to remember: whether the last lexeme was a
quantifier, and whether blanks are skipped in the innermost group and in those
around it. -/
structure Mode where
  afterQuantifier : Bool := false
  verbose : Bool := false
  outer : List Bool := []

/-- The next lexeme and the signs after it.  Directly after a quantifier, a
mark of greed is one. -/
def readNext (mode : Mode) (s : Sign) (source : Source) : Lexeme × Source :=
  let after : Source := ⟨source.position + s.text.length, source.rest.tail⟩
  match (if mode.afterQuantifier then greedMark? s else none) with
  | some greed => (.greed greed, after)
  | none =>
    match (if mode.verbose then skipped? s after else none) with
    | some rest => (.skip, rest)
    | none =>
      match (readLexeme s source.position).run after with
      | .ok lexeme rest => (lexeme, rest)
      | .error e rest => (.error e, rest)

/-- The mode after a lexeme. -/
def Mode.next (mode : Mode) (lexeme : Lexeme) : Mode :=
  let mode := { mode with afterQuantifier := false }
  match lexeme with
  | .quantifier .. => { mode with afterQuantifier := true }
  | .opening (.under change) =>
    { mode with
      verbose := change.apply .verbose mode.verbose
      outer := mode.verbose :: mode.outer }
  | .opening _ => { mode with outer := mode.verbose :: mode.outer }
  | .close =>
    match mode.outer with
    | [] => mode
    | verbose :: outer => { mode with verbose, outer }
  | .flags on => { mode with verbose := mode.verbose || on.contains .verbose }
  | _ => mode

/-- The lexemes of a list of signs; `dangling` tells that a backslash without
a partner follows the signs. -/
def lexemesOf (dangling : Bool) : Nat → Mode → Source → List Placed
  | 0, _, _ => []
  | fuel + 1, mode, source =>
    let lone : Lexeme := .error ⟨.danglingBackslash, some (source.rest.foldl
      (fun n s => n + s.text.length) source.position)⟩
    match source.rest with
    | [] => if dangling then [⟨source.position, source.position, lone⟩] else []
    | s :: _ =>
      let (lexeme, rest) := readNext mode s source
      let spoiled := dangling && rest.rest.isEmpty && lexeme != .close && lexeme != .bar
      let lexeme := if spoiled then lone else lexeme
      ⟨source.position, rest.position, lexeme⟩ ::
        match lexeme with
        | .error _ => []
        | _ => lexemesOf dangling fuel (mode.next lexeme) rest

/-- The lexemes of a pattern's source. -/
def lexemes (source : Text) : List Placed :=
  lexemesOf (signs source).2 (source.length + 1) {} ⟨0, (signs source).1⟩

end Pattern
end Highlight
