/-!
# Text

A text is its list of characters (Unicode code points), so counting and cutting need no encoding.
-/

namespace PatternAutomata

abbrev Text := List Char

namespace Text

def ofNat (n : Nat) : Text := Nat.toDigits 10 n

/-- The decimal digits of an integer, with a minus sign in front of a negative one. -/
def ofInt : Int → Text
  | .ofNat n => ofNat n
  | .negSucc n => '-' :: ofNat (n + 1)

/-- The texts in order, separated by a comma and a space. -/
def commaSeparated (texts : List Text) : Text := [',', ' '].intercalate texts

def line (text : Text) : Text := text ++ ['\n']

/-- All texts, each as a line of its own. -/
def unlines (texts : List Text) : Text := texts.flatMap line

end Text
end PatternAutomata
