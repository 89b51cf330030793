/-
# Flags of a pattern

A pattern is matched under four flags.  They are asked for from outside, or
the source names them by letters in a group of its own: `(?i)` at its start
sets flags for all of it, `(?i-s:…)` changes them for the part in the group.

| letter | sets |
| --- | --- |
| `a` | categories and case of the ASCII range |
| `u` | categories and case of Unicode, which is the default |
| `i` | case is ignored |
| `m` | line anchors hold at every line |
| `s` | the dot accepts the line feed |
| `x` | blanks and comments in the source are skipped |
| `L`, `t` | reserved |

The letter `x` concerns the reading of a source only.
-/

import Highlight.Text.Case

namespace Highlight
namespace Pattern

/-- The flags that a pattern is matched under. -/
structure Flags where
  ascii : Bool := false
  ignoreCase : Bool := false
  multiline : Bool := false
  dotAll : Bool := false
  deriving DecidableEq, Repr

/-- What a letter in a source stands for. -/
inductive Switch where
  | ascii
  | ignoreCase
  | locale
  | multiline
  | dotAll
  | template
  | unicode
  | verbose
  deriving DecidableEq, Repr

namespace Switch

/-- The switch that a letter stands for. -/
def ofLetter? : Char → Option Switch
  | 'a' => some .ascii
  | 'i' => some .ignoreCase
  | 'L' => some .locale
  | 'm' => some .multiline
  | 's' => some .dotAll
  | 't' => some .template
  | 'u' => some .unicode
  | 'x' => some .verbose
  | _ => none

/-- Whether a switch selects the characters that categories and case are
about.  There is one selection at a time. -/
def isSelection : Switch → Bool
  | .ascii | .locale | .unicode => true
  | _ => false

end Switch

/-- A change of flags: what is switched on, and what is switched off. -/
structure Change where
  on : List Switch := []
  off : List Switch := []
  deriving DecidableEq, Repr

/-- Whether a switch is on after a change, if it was before or not. -/
def Change.apply (c : Change) (switch : Switch) (was : Bool) : Bool :=
  (was || c.on.contains switch) && !c.off.contains switch

namespace Flags

/-- All flags that are set in one of two settings. -/
def union (f g : Flags) : Flags where
  ascii := f.ascii || g.ascii
  ignoreCase := f.ignoreCase || g.ignoreCase
  multiline := f.multiline || g.multiline
  dotAll := f.dotAll || g.dotAll

/-- The flags after a change. -/
def change (f : Flags) (c : Change) : Flags where
  ascii := c.apply .ascii (f.ascii && !c.on.contains .unicode)
  ignoreCase := c.apply .ignoreCase f.ignoreCase
  multiline := c.apply .multiline f.multiline
  dotAll := c.apply .dotAll f.dotAll

/-- Changing nothing changes nothing. -/
theorem change_empty (f : Flags) : f.change {} = f := by
  simp [change, Change.apply]

/-- The setting with the one flag that a letter stands for. -/
def ofLetter? : Char → Option Flags
  | 'a' => some { ascii := true }
  | 'i' => some { ignoreCase := true }
  | 'm' => some { multiline := true }
  | 's' => some { dotAll := true }
  | _ => none

/-- The letters of the flags that are set, in alphabetical order. -/
def letters (f : Flags) : String :=
  String.ofList <|
    (if f.ascii then ['a'] else []) ++ (if f.ignoreCase then ['i'] else []) ++
      (if f.multiline then ['m'] else []) ++ (if f.dotAll then ['s'] else [])

/-- The code points that count as equal to that of a character. -/
def variants (f : Flags) (c : Char) : List Nat :=
  if f.ignoreCase then
    if f.ascii then Text.asciiVariants c.toNat else Text.caseVariants c.toNat
  else [c.toNat]

/-- The character that stands for all its case variants. -/
def fold (f : Flags) (c : Char) : Char :=
  if f.ignoreCase then
    if f.ascii then c.toLower else Text.lowerChar c
  else c

end Flags
end Pattern
end Highlight
