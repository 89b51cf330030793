/-
# Quoted texts

A text is shown between quotes so that it can be read back.  The quote is the
apostrophe, unless the text has an apostrophe and no double quote; then it is
the double quote.  A backslash and the quote in use are preceded by a
backslash; tab, line feed and carriage return are `\t`, `\n`, `\r`; every
other character that is not printable is written by its code point, with two,
four or eight lower-case hexadecimal digits after `\x`, `\u`, `\U`.
-/

import Highlight.Text.Printable

namespace Highlight
namespace Text

/-- The lower-case hexadecimal digits of a number, filled up with zeros to a
width. -/
def hex (width n : Nat) : Text :=
  let digits := Nat.toDigits 16 n
  List.replicate (width - digits.length) '0' ++ digits

/-- How one character stands between quotes of the given kind. -/
def quoteChar (quote c : Char) : Text :=
  if c = '\\' || c = quote then ['\\', c]
  else if c = '\t' then ['\\', 't']
  else if c = '\n' then ['\\', 'n']
  else if c = '\r' then ['\\', 'r']
  else if isPrintable c then [c]
  else if c.toNat < 0x100 then ['\\', 'x'] ++ hex 2 c.toNat
  else if c.toNat < 0x10000 then ['\\', 'u'] ++ hex 4 c.toNat
  else ['\\', 'U'] ++ hex 8 c.toNat

/-- The quote used for a text. -/
def quoteOf (s : Text) : Char :=
  if s.contains '\'' && !s.contains '"' then '"' else '\''

/-- A text between quotes. -/
def quoted (s : Text) : Text :=
  quoteOf s :: s.flatMap (quoteChar (quoteOf s)) ++ [quoteOf s]

end Text

/-- A name between quotes, as messages show it. -/
def quotedName (s : String) : String :=
  String.ofList (Text.quoted s.toList)

/-- Names between quotes in square brackets, divided by commas. -/
def quotedNames (names : List String) : String :=
  "[" ++ ", ".intercalate (names.map quotedName) ++ "]"

end Highlight
