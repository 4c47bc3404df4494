/-!
# Operators

The three operators of patterns. `ofChar?` reads a symbol back, so `symbol` is injective.
-/

namespace PatternAutomata

/-- Repetition, juxtaposition and choice. -/
inductive Operator
  | star
  | concat
  | alternate
deriving DecidableEq, Repr

namespace Operator

/-- The character that stands for the operator in a pattern. -/
def symbol : Operator → Char
  | star => '*'
  | concat => '.'
  | alternate => '|'

/-- How tightly the operator binds. -/
def precedence : Operator → Nat
  | star => 3
  | concat => 2
  | alternate => 1

/-- The number of operands. -/
def arity : Operator → Nat
  | star => 1
  | concat => 2
  | alternate => 2

/-- The operator that a character stands for. -/
def ofChar? : Char → Option Operator
  | '*' => some star
  | '.' => some concat
  | '|' => some alternate
  | _ => none

@[simp] theorem ofChar?_symbol (o : Operator) : ofChar? o.symbol = some o := by cases o <;> rfl

theorem ofChar?_eq_some_iff {c : Char} {o : Operator} : ofChar? c = some o ↔ c = o.symbol := by
  constructor
  · intro h
    unfold ofChar? at h
    split at h <;> simp_all [symbol] <;> subst h <;> rfl
  · rintro rfl
    exact ofChar?_symbol o

end Operator
end PatternAutomata
