import PatternAutomata.Operator
import PatternAutomata.Symbol
import PatternAutomata.Value

/-!
# Tokens

A pattern in postfix order is a list of tokens. A literal may carry any symbol, even one that spells an operator, so the
text of a list of tokens does not always tell the tokens; `tokenize` reads it one character at a time.
-/

namespace PatternAutomata

/-- An operand, an operator, or a value that is neither. -/
inductive Token
  | literal (symbol : Symbol)
  | operator (o : Operator)
  | foreign (value : Value)
deriving DecidableEq, Repr

namespace Token

/-- The text of a token. -/
def text : Token → Text
  | literal s => s
  | operator o => [o.symbol]
  | foreign v => v.plain

/-- The token that a character stands for: an operator if there is one, else a literal. -/
def ofChar (c : Char) : Token :=
  match Operator.ofChar? c with
  | some o => operator o
  | none => literal [c]

/-- The token that a text stands for: an operator only if the text is just its character. -/
def ofText : Text → Token
  | [c] => ofChar c
  | s => literal s

theorem ofChar_symbol (o : Operator) : ofChar o.symbol = operator o := by simp [ofChar]

@[simp] theorem text_ofChar (c : Char) : (ofChar c).text = [c] := by
  unfold ofChar
  split
  next o h => simp [text, Operator.ofChar?_eq_some_iff.mp h]
  next => rfl

end Token

/-- The tokens that the characters of a postfix text stand for. -/
def tokenize (source : Text) : List Token := source.map Token.ofChar

/-- The text of a list of tokens: their texts in order, without separator. -/
def textOf (tokens : List Token) : Text := tokens.flatMap Token.text

@[simp] theorem textOf_tokenize (source : Text) : textOf (tokenize source) = source := by
  induction source with
  | nil => rfl
  | cons c source ih => simp_all [textOf, tokenize]

end PatternAutomata
