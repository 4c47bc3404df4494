import PatternAutomata.CompileError

/-!
# Alphabets

An alphabet restricts the characters of a pattern. Operators and parentheses are always allowed. The check goes by the
characters, before it is known which of them are operands.
-/

namespace PatternAutomata

/-- The symbols that may occur. A symbol that is not of length one is never met in a pattern. -/
abbrev Alphabet := List Symbol

namespace Alphabet

/-- The characters of a text as an alphabet. -/
def ofText (text : Text) : Alphabet := text.map fun c => [c]

/-- Whether a pattern may hold the character. -/
def allows (alphabet : Alphabet) (c : Char) : Bool :=
  (Operator.ofChar? c).isSome || c == '(' || c == ')' || alphabet.contains [c]

/-- Refuses the first character that is not allowed. -/
def check (alphabet : Alphabet) (pattern : Text) : Except CompileError Unit :=
  match pattern.zipIdx.find? fun (c, _) => !alphabet.allows c with
  | none => .ok ()
  | some (c, index) => .error (.unexpectedSymbol (.text [c]) pattern index)

end Alphabet

/-- Checks a pattern against its alphabet. Without one every character is allowed. -/
def Pattern.checkAlphabet (alphabet : Option Alphabet) (pattern : Text) : Except CompileError Unit :=
  match alphabet with
  | none => .ok ()
  | some alphabet => alphabet.check pattern

end PatternAutomata
