import PatternAutomata.Text.Basic

/-!
# Folders

A folder holds files and further folders. A path leads through folders to a file: its segments are the names on the way,
an empty segment or a dot stays where it is, two dots go back. Every name on the way, left again or not, has to be a
folder. A path that leaves the outermost folder leads to nothing, and so does one that ends in a folder.
-/

namespace PatternAutomata.CommandLine

/-- The names from a folder down to something in it. -/
abbrev Location := List Text

/-- What a folder holds, at any depth. -/
structure Folder where
  files : List (Location × Text) := []
  folders : List Location := []
deriving DecidableEq, Repr

namespace Folder

/-- The parts of a path between its slashes. -/
def segments : Text → List Text
  | [] => [[]]
  | c :: rest =>
    if c = '/' then [] :: segments rest
    else match segments rest with
      | [] => [[c]]
      | first :: others => (c :: first) :: others

/-- Whether there is a folder at a location: a listed one, or one on the way to something. -/
def hasFolder (folder : Folder) (location : Location) : Bool :=
  folder.folders.any location.isPrefixOf || folder.files.any fun (file, _) => location.isPrefixOf file.dropLast

/-- The content of the file that some segments lead to from a location. -/
def readFrom? (folder : Folder) (here : Location) : List Text → Option Text
  | [] => none
  | segment :: rest =>
    if segment = [] ∨ segment = ['.'] then folder.readFrom? here rest
    else if segment = ['.', '.'] then
      if here.isEmpty then none else folder.readFrom? here.dropLast rest
    else
      let there := here ++ [segment]
      if rest.isEmpty then folder.files.lookup there
      else if folder.hasFolder there then folder.readFrom? there rest
      else none

/-- The content of the file that a path leads to. A slash in front leads out of the folder. -/
def read? (folder : Folder) (path : Text) : Option Text :=
  if path.head? = some '/' then none else folder.readFrom? [] (segments path)

end Folder
end PatternAutomata.CommandLine
