import PatternAutomata.Text.Basic
import PatternAutomata.Text.Printable

/-!
# Quoted text

A text between two quotation marks, on one line and in printable characters only. The mark is the apostrophe, or the
double quote when the text holds an apostrophe and no double quote. The mark and the backslash get a backslash in front;
what is not printable is written by its code point.
-/

namespace PatternAutomata.Text

def apostrophe : Char := '\x27'
def doubleQuote : Char := '\x22'
def backslash : Char := '\x5c'

/-- The mark that needs fewer backslashes; the apostrophe if both need some. -/
def quotationMark (text : Text) : Char :=
  if apostrophe ∈ text ∧ doubleQuote ∉ text then doubleQuote else apostrophe

/-- The hexadecimal digits of a number, padded with zeros to a width. -/
def hexadecimal (width n : Nat) : Text :=
  let digits := Nat.toDigits 16 n
  List.replicate (width - digits.length) '0' ++ digits

/-- A code point behind a backslash, in the shortest of the forms with two, four and eight digits. -/
def codePointEscape (c : Char) : Text :=
  if c.toNat < 0x100 then backslash :: 'x' :: hexadecimal 2 c.toNat
  else if c.toNat < 0x10000 then backslash :: 'u' :: hexadecimal 4 c.toNat
  else backslash :: 'U' :: hexadecimal 8 c.toNat

/-- A character as it stands between marks. -/
def quotedChar (mark c : Char) : Text :=
  if c = mark ∨ c = backslash then [backslash, c]
  else if c = '\n' then [backslash, 'n']
  else if c = '\r' then [backslash, 'r']
  else if c = '\t' then [backslash, 't']
  else if isPrintable c then [c]
  else codePointEscape c

/-- The quoted form of a text. -/
def quoted (text : Text) : Text :=
  let mark := quotationMark text
  mark :: text.flatMap (quotedChar mark) ++ [mark]

end PatternAutomata.Text
