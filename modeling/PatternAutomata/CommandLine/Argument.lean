import PatternAutomata.CommandLine.Cluster
import PatternAutomata.Text.DecimalDigit

/-!
# Kinds of arguments

What an argument is depends on its spelling alone. One dash and the letter of an option begin a cluster of letters, two
dashes a name, which may be abbreviated as long as no other name begins in the same way. Other arguments that begin with
a dash are plain if they look like a negative number or hold a space. Behind the separator all are plain.
-/

namespace PatternAutomata.CommandLine

/-- An argument and what it is. -/
inductive Argument
  | plain (text : Text)
  | separator
  | options (cluster : Cluster)
  | unknown (text : Text)
deriving DecidableEq, Repr

namespace Argument

/-- A text up to its first equals sign, and what follows the sign if there is one. -/
def cutAtEquals (text : Text) : Text × Option Text :=
  match text.dropWhile (· != '=') with
  | [] => (text, none)
  | _ :: value => (text.takeWhile (· != '='), some value)

/-- Whether a text is all digits, or digits, a point and at least one digit; a line feed may follow. -/
def isUnsignedNumber (text : Text) : Bool :=
  let text := if text.getLast? == some '\n' then text.dropLast else text
  match text.dropWhile Text.isDecimalDigit with
  | [] => !text.isEmpty
  | '.' :: fraction => !fraction.isEmpty && fraction.all Text.isDecimalDigit
  | _ => false

/-- An argument that begins with a dash but names no option. -/
def ofOther (text : Text) : Argument :=
  if isUnsignedNumber text.tail || text.contains ' ' then plain text else unknown text

/-- The kind of an argument in front of the separator. -/
def ofText (text : Text) : Except UsageError Argument :=
  match text with
  | '-' :: '-' :: rest =>
    let (front, value) := cutAtEquals rest
    match Switch.all.filter fun switch => front.isPrefixOf switch.name with
    | [] => .ok (ofOther text)
    | [switch] => .ok (options (Cluster.ofName switch value))
    | candidates => .error (.ambiguous text candidates)
  | '-' :: c :: rest =>
    match Switch.ofLetter? c with
    | none => .ok (ofOther text)
    | some switch => .ok (options (Cluster.ofLetter switch rest))
  | _ => .ok (plain text)

def ofTexts : List Text → Except UsageError (List Argument)
  | [] => .ok []
  | text :: rest =>
    if text = CommandLine.separator then .ok (separator :: rest.map plain)
    else do
      let argument ← ofText text
      let arguments ← ofTexts rest
      return argument :: arguments

end Argument
end PatternAutomata.CommandLine
