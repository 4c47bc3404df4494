import PatternAutomata.Text.Basic

/-!
# Completion

In a pattern the dot between two operands may be left out where the characters around it show that it is meant: after a
letter, a digit, a star or a closing parenthesis, and before a letter, a digit or an opening parenthesis. Letters and
digits are the ASCII ones. `complete` writes these dots.
-/

namespace PatternAutomata.Pattern

/-- Whether an operand may end with the character, such that a dot may be left out after it. -/
def isEnder (c : Char) : Bool := c.isAlphanum || c == '*' || c == ')'

/-- Whether an operand may begin with the character, such that a dot may be left out before it. -/
def isStarter (c : Char) : Bool := c.isAlphanum || c == '('

/-- The pattern with a dot between every ender and a starter that follows it. -/
def complete : Text → Text
  | [] => []
  | [c] => [c]
  | c :: d :: rest =>
    if isEnder c && isStarter d then c :: '.' :: complete (d :: rest) else c :: complete (d :: rest)

end PatternAutomata.Pattern
