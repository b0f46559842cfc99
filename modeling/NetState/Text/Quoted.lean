import NetState.Text.Numeral
import NetState.Text.Printable

/-!
Quoted text, as it is shown inside a message.

A quote and a backslash are written after a backslash, four controls have a letter of their own, and
any other character that would not show by itself is written as its code point in braces. All else
stands for itself.
-/

namespace NetState.Text

/-- The escape that names a character by its code point. -/
def escapeCodePoint (c : Char) : List Char :=
  ['\\', 'u', '\x7b'] ++ hexadecimal c.toNat ++ ['\x7d']

/-- How one character is written between quotes. -/
def escapeChar (c : Char) : List Char :=
  if c = '\x00' then ['\\', '0']
  else if c = '\t' then ['\\', 't']
  else if c = '\r' then ['\\', 'r']
  else if c = '\n' then ['\\', 'n']
  else if c = '"' then ['\\', '"']
  else if c = '\\' then ['\\', '\\']
  else if ' ' ≤ c ∧ c ≤ '~' then [c]
  else if isExtending c || isUnprintable c then escapeCodePoint c
  else [c]

/-- A text between double quotes, with escapes. -/
def quoted (text : String) : String :=
  String.ofList ('"' :: text.toList.flatMap escapeChar ++ ['"'])

end NetState.Text
