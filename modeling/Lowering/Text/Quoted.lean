import Lowering.Text.CharClass

/-!
# Quoted texts

Two ways to write a text between double quotes.

* `quote` is the form of a string literal: a quote, a backslash and the control characters are
  escaped, everything else stands for itself.
* `describe` is the form used in reports: it also escapes every character that would not show.
-/

namespace Lowering.Text

/-- The lowercase hexadecimal digits of a number. -/
def hexDigits (n : Nat) : List Char := Nat.toDigits 16 n

/-- Two hexadecimal digits of a number below 256. -/
def hexPair (n : Nat) : List Char :=
  let digits := hexDigits n
  List.replicate (2 - digits.length) '0' ++ digits

/-- One character of a string literal: the quote, the backslash, line feed, tab and carriage return
by name, any other control character by its two hexadecimal digits. -/
def quoteChar (c : Char) : List Char :=
  if c = '"' then ['\\', '"']
  else if c = '\\' then ['\\', '\\']
  else if c = '\n' then ['\\', 'n']
  else if c = '\t' then ['\\', 't']
  else if c = '\r' then ['\\', 'r']
  else if c.toNat < 0x20 ∨ c.toNat = 0x7f then '\\' :: 'x' :: hexPair c.toNat
  else [c]

/-- A string literal. -/
def quote (s : String) : String :=
  String.ofList ('"' :: s.toList.flatMap quoteChar ++ ['"'])

/-- One character of a described text: escapes by name where there is one, by code point for the
other hidden characters. -/
def describeChar (c : Char) : List Char :=
  if c = '"' then ['\\', '"']
  else if c = '\\' then ['\\', '\\']
  else if c = '\n' then ['\\', 'n']
  else if c = '\t' then ['\\', 't']
  else if c = '\r' then ['\\', 'r']
  else if c.toNat = 0 then ['\\', '0']
  else if isHidden c then ['\\', 'u', '\x7b'] ++ hexDigits c.toNat ++ ['\x7d']
  else [c]

/-- A text as reports show it. -/
def describe (s : String) : String :=
  String.ofList ('"' :: s.toList.flatMap describeChar ++ ['"'])

end Lowering.Text
