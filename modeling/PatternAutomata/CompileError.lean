import PatternAutomata.Token

/-!
# Compile errors

Why a pattern, or a list of tokens, cannot be turned into an automaton. Every cause but emptiness has a position: of a
character in a pattern, of a token in a list. The message shows a window of the source text around it.
-/

namespace PatternAutomata

/-- The cause of a failed compilation. `source` is the text that `index` points into. -/
inductive CompileError
  | emptyPattern
  /-- An operator has fewer operands than its arity. -/
  | operandUnderflow (operator : Operator) (source : Text) (index : Nat)
  /-- In the end `count` operands are not joined by any operator. -/
  | operandOverflow (count : Nat) (source : Text) (index : Nat)
  /-- A character outside the alphabet, or a value that is no token. -/
  | unexpectedSymbol (symbol : Value) (source : Text) (index : Nat)
deriving DecidableEq, Repr

namespace CompileError

def source : CompileError → Text
  | emptyPattern => []
  | operandUnderflow _ source _ => source
  | operandOverflow _ source _ => source
  | unexpectedSymbol _ source _ => source

def index? : CompileError → Option Nat
  | emptyPattern => none
  | operandUnderflow _ _ index => some index
  | operandOverflow _ _ index => some index
  | unexpectedSymbol _ _ index => some index

/-- What is wrong, without the position. -/
def description : CompileError → Text
  | emptyPattern => "Empty pattern".toList
  | operandUnderflow o _ _ =>
    "Operator ".toList ++ [o.symbol] ++ " requires ".toList ++ Text.ofNat o.arity ++ " operand(s)".toList
  | operandOverflow count _ _ => Text.ofNat count ++ " dangling fragments, expected a single one".toList
  | unexpectedSymbol symbol _ _ => "Unexpected symbol ".toList ++ symbol.shown

/-- At most three characters before a position and three from it on. -/
def window (source : Text) (index : Nat) : Text := (source.take (index + 3)).drop (index - 3)

def message (e : CompileError) : Text :=
  match e.index? with
  | none => e.description
  | some index =>
    e.description ++ ". At index ".toList ++ Text.ofNat index ++ ": ".toList ++ window e.source index

end CompileError
end PatternAutomata
