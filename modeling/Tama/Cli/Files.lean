/-!
# Files

What the command line sees of the file system: a path leads to a file, to a folder, or nowhere.
-/

set_option autoImplicit false

namespace Tama.Cli

/-- What a path leads to. -/
inductive Entry where
  | missing
  | folder
  | file (bytes : List UInt8)

/-- The files of a folder by their relative paths. -/
structure Folder where
  files : List (String × List UInt8)

namespace Folder

/-- The steps of a path; a step of one point stays where it is. -/
def steps (path : String) : List String :=
  (path.splitOn "/").filter fun s => s ≠ "" ∧ s ≠ "."

/-- What a path leads to. A path with steps that are all the start of another leads to a folder. -/
def entry (folder : Folder) (path : String) : Entry :=
  let wanted := steps path
  match folder.files.find? fun f => steps f.1 = wanted with
  | some f => .file f.2
  | none =>
    let leads := wanted.all (· = "..") || folder.files.any fun f => wanted.isPrefixOf (steps f.1)
    if path ≠ "" && leads then .folder else .missing

end Folder
end Tama.Cli
