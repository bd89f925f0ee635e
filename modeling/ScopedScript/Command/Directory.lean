/-!
# Reading the files of a directory

What there is to read under a path, given the files of the directory that it starts from. Of the
other directories nothing is known but that they are there. A file is read as far as the length goes
that it reports.
-/

namespace ScopedScript

/-- Why a path gives nothing to read. -/
inductive FileFault where
  /-- There is no file of that name. -/
  | missing
  /-- The path goes on after a file. -/
  | notDirectory
  /-- The path, or a name in it, is too long. -/
  | nameTooLong
  /-- The file may not be read. -/
  | forbidden
  /-- What is there is not a file but a directory. -/
  | directory
  deriving DecidableEq, Repr

/-- The message that names a file that cannot be read, given its name in quotes. A directory can be
opened, so it is found out only afterwards. -/
def FileFault.message (quoted : String) : FileFault → String
  | missing => "Failed to open file " ++ quoted ++ ": No such file or directory (os error 2)"
  | notDirectory => "Failed to open file " ++ quoted ++ ": Not a directory (os error 20)"
  | nameTooLong => "Failed to open file " ++ quoted ++ ": File name too long (os error 36)"
  | forbidden => "Failed to open file " ++ quoted ++ ": Permission denied (os error 13)"
  | directory => "Failed to map file " ++ quoted ++ ": No such device (os error 19)"

/-- A file: what it holds, and the length that it reports. A file that the system makes up as it is
read reports no length, whatever it holds. -/
structure StoredFile where
  bytes : ByteArray
  length : Nat

namespace StoredFile

/-- A file that is kept by the system, which reports how much it holds. -/
def kept (bytes : ByteArray) : StoredFile := ⟨bytes, bytes.size⟩

/-- What is read of a file: nothing if it reports no length, and else all that it holds. -/
def contents (f : StoredFile) : ByteArray := if f.length = 0 then .empty else f.bytes

end StoredFile

/-- A directory that holds files only, each with its name and its bytes. -/
structure Directory where
  files : List (String × ByteArray)

/-- Where a path leads. -/
inductive Place where
  /-- The directory that it starts from. -/
  | here
  /-- A directory of which nothing is known. -/
  | elsewhere
  /-- A file. -/
  | file (file : StoredFile)

/-- The most bytes in a name. -/
def maxNameSize : Nat := 255

/-- The most bytes in a path. -/
def maxPathSize : Nat := 4095

/-- The names in a path. Where slashes meet, and at an end that is a slash, a name is empty. -/
def namesOfPath : List Char → List (List Char)
  | [] => [[]]
  | '/' :: rest => [] :: namesOfPath rest
  | c :: rest =>
    match namesOfPath rest with
    | [] => [[c]]
    | name :: names => (c :: name) :: names

namespace Directory

/-- The place to which a name leads from another. An empty name and a single dot stay in the same
directory, and two dots leave it. -/
def follow (d : Directory) (name : List Char) : Place → Except FileFault Place
  | .file _ => .error .notDirectory
  | place =>
    match name, place with
    | [], _ => .ok place
    | ['.'], _ => .ok place
    | ['.', '.'], _ => .ok .elsewhere
    | _, place =>
      let name := String.ofList name
      if maxNameSize < name.utf8ByteSize then .error .nameTooLong
      else
        match place with
        | .here =>
          (d.files.lookup name).elim (.error .missing) fun bytes => .ok (.file (.kept bytes))
        | _ => .error .missing

/-- The file that a path leads to. A path that begins with a slash does not start from this
directory. -/
def read (d : Directory) (path : String) : Except FileFault StoredFile :=
  if maxPathSize < path.utf8ByteSize then .error .nameTooLong
  else
    let start (first : Option Char) : Place := if first = some '/' then .elsewhere else .here
    let walk := (namesOfPath path.toList).foldlM (fun place name => d.follow name place)
      (start path.toList.head?)
    walk.bind fun
      | .file file => .ok file
      | _ => .error .directory

example (d : Directory) : d.read "." = .error .directory := rfl

example (bytes : ByteArray) : (Directory.mk [("p", bytes)]).read ".//p" = .ok (.kept bytes) := rfl

end Directory

end ScopedScript
