/-!
# Folders

A command names its file by a path, and the path is followed from a folder (`Folder.find`). A
folder is known by the files it holds. Of what is around it no more is known than that every step
up leads to another folder.
-/

namespace PhpFrontEnd

/-- What a path leads to. -/
inductive Place where
  | file (bytes : List UInt8)
  | folder
  | nothing
  deriving DecidableEq

/-- A folder that holds files only. -/
structure Folder where
  /-- names of files, with their bytes -/
  files : List (String × List UInt8)
  deriving DecidableEq

namespace Folder

/-- Whether a step of a path stays where it is. -/
def staysPut (step : String) : Bool := step = "" || step = "."

/-- Where a path leads. A path that only stays or goes up leads to a folder; to lead to a file it
has to end with the name of the file, as nothing comes below a file. -/
def find (folder : Folder) (path : String) : Place :=
  let steps := path.splitOn "/"
  if path = "" then .nothing
  else if steps.all fun step => staysPut step || step = ".." then .folder
  else if steps.head? = some "" then .nothing
  else
    match steps.dropWhile staysPut with
    | [name] =>
      match folder.files.lookup name with
      | some bytes => .file bytes
      | none => .nothing
    | _ => .nothing

end Folder

end PhpFrontEnd
