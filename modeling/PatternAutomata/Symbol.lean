import PatternAutomata.Text.Basic

/-!
# Symbols

What labels an edge of an automaton and what a word is made of. Symbols are texts, usually of one character. The empty
symbol labels the edges that may be followed without reading; it is displayed as a small epsilon.
-/

namespace PatternAutomata

abbrev Symbol := Text

abbrev Word := List Symbol

namespace Symbol

def epsilon : Symbol := []

/-- The form in which a symbol is shown: the empty one as `ε`, every other one as it is. -/
def display (symbol : Symbol) : Text := if symbol = epsilon then ['ε'] else symbol

end Symbol

namespace Word

/-- The characters of a text, each a symbol of its own. -/
def ofText (text : Text) : Word := text.map fun c => [c]

end Word
end PatternAutomata
