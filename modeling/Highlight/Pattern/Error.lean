/-
# Why a pattern is refused

Every cause has its own wording, and all but one point at an offset of the
source.  When the source has line feeds, the offset is given as line and
column too.
-/

import Highlight.Text.Quoted

namespace Highlight
namespace Pattern

/-- Why flags cannot be switched as a source asks. -/
inductive FlagConflict where
  | locale
  | selections
  | selectionOff
  | globalOn
  | globalOff
  | onAndOff
  deriving DecidableEq, Repr

/-- The wording of a conflict of flags. -/
def FlagConflict.text : FlagConflict → String
  | .locale => "cannot use 'L' flag with a str pattern"
  | .selections => "flags 'a', 'u' and 'L' are incompatible"
  | .selectionOff => "cannot turn off flags 'a', 'u' and 'L'"
  | .globalOn => "cannot turn on global flag"
  | .globalOff => "cannot turn off global flag"
  | .onAndOff => "flag turned on and off"

/-- What is wrong with a pattern's source. -/
inductive Cause where
  | danglingBackslash
  | badEscape (escape : Text)
  | incompleteEscape (escape : Text)
  | octalTooLarge (escape : Text)
  | missingBrace
  | missingCharacterName
  | undefinedCharacter (name : Text)
  | unterminatedSet
  | badRange (first last : Text)
  | missingName
  | unterminatedName (close : Char)
  | badName (name : Text)
  | redefinedName (name : Text) (index earlier : Nat)
  | unknownName (name : Text)
  | unknownExtension (text : Text)
  | unexpectedEnd
  | unterminatedComment
  | badGroupNumber
  | thirdBranch
  | unknownFlag
  | missingFlag
  | missingFlagEnd
  | missingColon
  | badFlags (conflict : FlagConflict)
  | misplacedFlags
  | unbalancedParenthesis
  | unterminatedGroup
  | leastOverMost
  | nothingToRepeat
  | multipleRepeat
  | invalidReference (group : Nat)
  | openReference
  | referenceInLookbehind
  | variableLookbehind
  deriving DecidableEq, Repr

/-- The wording of a cause. -/
def Cause.text : Cause → String
  | .danglingBackslash => "bad escape (end of pattern)"
  | .badEscape escape => "bad escape " ++ String.ofList escape
  | .incompleteEscape escape => "incomplete escape " ++ String.ofList escape
  | .octalTooLarge escape =>
    "octal escape value " ++ String.ofList escape ++ " outside of range 0-0o377"
  | .missingBrace => "missing \x7b"
  | .missingCharacterName => "missing character name"
  | .undefinedCharacter name =>
    "undefined character name " ++ String.ofList (Text.quoted name)
  | .unterminatedSet => "unterminated character set"
  | .badRange first last =>
    "bad character range " ++ String.ofList first ++ "-" ++ String.ofList last
  | .missingName => "missing group name"
  | .unterminatedName close => "missing " ++ close.toString ++ ", unterminated name"
  | .badName name => "bad character in group name " ++ String.ofList (Text.quoted name)
  | .redefinedName name index earlier =>
    "redefinition of group name " ++ String.ofList (Text.quoted name) ++ " as group " ++
      toString index ++ "; was group " ++ toString earlier
  | .unknownName name => "unknown group name " ++ String.ofList (Text.quoted name)
  | .unknownExtension text => "unknown extension ?" ++ String.ofList text
  | .unexpectedEnd => "unexpected end of pattern"
  | .unterminatedComment => "missing ), unterminated comment"
  | .badGroupNumber => "bad group number"
  | .thirdBranch => "conditional backref with more than two branches"
  | .unknownFlag => "unknown flag"
  | .missingFlag => "missing flag"
  | .missingFlagEnd => "missing -, : or )"
  | .missingColon => "missing :"
  | .badFlags conflict => "bad inline flags: " ++ conflict.text
  | .misplacedFlags => "global flags not at the start of the expression"
  | .unbalancedParenthesis => "unbalanced parenthesis"
  | .unterminatedGroup => "missing ), unterminated subpattern"
  | .leastOverMost => "min repeat greater than max repeat"
  | .nothingToRepeat => "nothing to repeat"
  | .multipleRepeat => "multiple repeat"
  | .invalidReference group => "invalid group reference " ++ toString group
  | .openReference => "cannot refer to an open group"
  | .referenceInLookbehind =>
    "cannot refer to group defined in the same lookbehind subpattern"
  | .variableLookbehind => "look-behind requires fixed-width pattern"

/-- A cause and the offset it points at. -/
structure Error where
  cause : Cause
  position : Option Nat := none
  deriving DecidableEq, Repr

namespace Error

/-- The line of an offset, counted from 1. -/
def line (source : Text) (position : Nat) : Nat :=
  (source.take position).count '\n' + 1

/-- The column of an offset, counted from 1: how far it is from the line feed
before it. -/
def column (source : Text) (position : Nat) : Nat :=
  ((source.take position).reverse.takeWhile (· != '\n')).length + 1

/-- The full wording for a source. -/
def message (e : Error) (source : Text) : String :=
  match e.position with
  | none => e.cause.text
  | some n =>
    let place := e.cause.text ++ " at position " ++ toString n
    if source.contains '\n' then
      place ++ " (line " ++ toString (line source n) ++ ", column " ++
        toString (column source n) ++ ")"
    else place

end Error
end Pattern
end Highlight
