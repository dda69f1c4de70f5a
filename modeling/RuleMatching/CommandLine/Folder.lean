set_option autoImplicit false

/-! # The files of a folder

A `Folder` is the list of its files with their texts; it has no folders of its own.
`Folder.read` reads a file by its path from the folder, as a file system would, and tells why a
path leads to no text. -/

namespace RuleMatching

/-- Why a file cannot be read. -/
inductive FileError where
  | nulInPath
  | nameTooLong
  | missing
  | notFolder
  | isFolder
deriving DecidableEq, Repr

/-- The reason in words. -/
def FileError.message : FileError → String
  | .nulInPath => "file name contained an unexpected NUL byte"
  | .nameTooLong => "File name too long (os error 36)"
  | .missing => "No such file or directory (os error 2)"
  | .notFolder => "Not a directory (os error 20)"
  | .isFolder => "Is a directory (os error 21)"

/-- The names and texts of the files of a folder. -/
abbrev Folder := List (String × String)

namespace Folder

/-- The most bytes that a name and a path can have. -/
def nameLimit : Nat := 255

@[inherit_doc nameLimit]
def pathLimit : Nat := 4095

/-- Reads a file by the parts of its path. Above the folder nothing is known but that there are
folders; below a file there is nothing. -/
def readParts (files : Folder) (isAbsolute : Bool) (parts : List String) :
    Except FileError String :=
  match parts.dropWhile fun part => part = "" ∨ part = "." with
  | [] => .error .isFolder
  | name :: rest =>
    if name = ".." then
      .error (if rest.all fun part => part = "" ∨ part = "." ∨
        part = ".." then .isFolder else .missing)
    else if nameLimit < name.utf8ByteSize then .error .nameTooLong
    else
      match if isAbsolute then none else files.lookup name with
      | none => .error .missing
      | some text => if rest.isEmpty then .ok text else .error .notFolder

/-- Reads a file by its path. -/
def read (files : Folder) (path : String) : Except FileError String :=
  if path.toList.contains '\x00' then .error .nulInPath
  else if path = "" then .error .missing
  else if pathLimit < path.utf8ByteSize then .error .nameTooLong
  else files.readParts (path.startsWith "/") (path.splitOn "/")

end Folder

end RuleMatching
