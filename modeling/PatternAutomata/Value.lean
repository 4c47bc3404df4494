import PatternAutomata.Text.Quoted

/-!
# Foreign values

Values that may turn up among tokens without being one, and the two ways of writing them: plain, and such that a text can
be told from the other kinds.
-/

namespace PatternAutomata

/-- An integer, a text, a truth value or nothing. -/
inductive Value
  | int (n : Int)
  | text (t : Text)
  | bool (b : Bool)
  | null
deriving DecidableEq, Repr

namespace Value

/-- The plain form. -/
def plain : Value → Text
  | int n => Text.ofInt n
  | text t => t
  | bool true => ['T', 'r', 'u', 'e']
  | bool false => ['F', 'a', 'l', 's', 'e']
  | null => ['N', 'o', 'n', 'e']

/-- The form in messages: like the plain one, but texts are quoted. -/
def shown : Value → Text
  | text t => t.quoted
  | v => v.plain

end Value
end PatternAutomata
