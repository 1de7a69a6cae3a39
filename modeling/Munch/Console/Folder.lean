import Munch.Console.Dialog

/-!
# A folder in memory

A folder holds files by name and nothing else. A path is a sequence of names divided by slashes;
empty names and the name `.` stay where they are.
-/

namespace Munch.Console

/-- The files of a folder. -/
structure Folder where
  files : List (Text × Text) := []
  deriving DecidableEq, Repr, Inhabited

/-- There is nothing under a name. -/
def noSuchFile : Text := "no such file or directory"

/-- A path leads through a file. -/
def notADirectory : Text := "not a directory"

namespace Folder

/-- Is this a name that leads nowhere else? -/
def stays (name : Text) : Bool := name.isEmpty || name = [Symbol.char '.']

/-- What is found under a path. -/
def find (folder : Folder) (path : Text) : Found :=
  if path.isEmpty then .refused noSuchFile
  else
    match (Text.pieces '/' path).dropWhile stays with
    | [] => .directory
    | name :: rest =>
      match folder.files.lookup name with
      | none => .refused noSuchFile
      | some content => if rest.isEmpty then .content content else .refused notADirectory

end Folder

end Munch.Console
