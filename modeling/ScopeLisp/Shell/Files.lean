import ScopeLisp.Text.Bytes
import ScopeLisp.Text.Lines

/-!
# Files

## Paths

A path is a row of names between slashes.  Its extension is what follows the
last dot of its last name, unless nothing stands before that dot.  Names and
whole paths have limits, which count bytes.

## File trees

A file tree is a working directory with the files and directories in and below
it.  A path is followed name by name, through directories only.
-/

namespace ScopeLisp

/-- Why a file cannot be read. -/
inductive FileError where
  | notFound
  | permissionDenied
  | invalidText
  /-- Any other reason, in the words of the system. -/
  | system (reason : String)
deriving DecidableEq

namespace FileError

def isDirectory : FileError := .system "Is a directory (os error 21)"

def notADirectory : FileError := .system "Not a directory (os error 20)"

def nameTooLong : FileError := .system "File name too long (os error 36)"

def message (path : String) : FileError → String
  | .notFound => "cannot find file '" ++ path ++ "'"
  | .permissionDenied => "permission denied reading '" ++ path ++ "'"
  | .invalidText => "'" ++ path ++ "' contains invalid UTF-8 data"
  | .system reason => "error reading '" ++ path ++ "': " ++ reason

def decode (contents : List UInt8) : Except FileError (List Char) :=
  match Text.decode? contents with
  | some text => .ok text
  | none => .error .invalidText

end FileError

namespace Path

/-!
# Paths

Empty pieces and single dots are no names, and the name of a parent directory
has no extension.
-/

def pieces : List Char → List (List Char)
  | [] => [[]]
  | c :: rest =>
      if c = '/' then [] :: pieces rest
      else
        match pieces rest with
        | [] => [[c]]
        | first :: others => (c :: first) :: others

def nameLimit : Nat := 255

def limit : Nat := 4095

def step (names : List (List Char)) (piece : List Char) : List (List Char) :=
  if piece = [] ∨ piece = ['.'] then names
  else if piece = ['.', '.'] then names.dropLast
  else names ++ [piece]

def places : (names : List (List Char)) → (path : List (List Char)) → List (List (List Char))
  | _, [] => []
  | names, piece :: rest => step names piece :: places (step names piece) rest

def lastName? (path : List Char) : Option (List Char) :=
  ((pieces path).filter fun piece => piece != [] && piece != ['.']).getLast?

/-- The part of a name behind its last dot, unless nothing stands before that dot. -/
def nameExtension? (name : List Char) : Option (List Char) :=
  let backwards := name.reverse
  let extension := (backwards.takeWhile (· != '.')).reverse
  match backwards.dropWhile (· != '.') with
  | _ :: _ :: _ => some extension
  | _ => none

def extension? (path : List Char) : Option (List Char) :=
  match lastName? path with
  | some ['.', '.'] => none
  | some name => nameExtension? name
  | none => none

end Path

/-!
# File trees

Writing a file makes the directories on the way to it.
-/

/-- A working directory.  What is in and below it stands by the names on the way to it. -/
structure FileTree where
  files : List (List (List Char) × List UInt8)
  directories : List (List (List Char))

namespace FileTree

def empty : FileTree := ⟨[], []⟩

def write (t : FileTree) (path : List Char) (contents : List UInt8) : FileTree :=
  let places := Path.places [] (Path.pieces path)
  ⟨(places.getLastD [], contents) :: t.files, places.dropLast ++ t.directories⟩

def ofFiles (files : List (String × List UInt8)) : FileTree :=
  files.foldl (fun t (path, contents) => t.write path.toList contents) empty

/-!
# Following a path

A piece of a path leads from a directory to what its name stands for.  A path
may leave the working directory and come back into it.
-/

inductive Place where
  | file (contents : List UInt8)
  | directory (names : List (List Char))
  /-- A directory around the working directory. -/
  | outside

def at? (t : FileTree) (names : List (List Char)) : Option Place :=
  match t.files.lookup names with
  | some contents => some (.file contents)
  | none =>
      if names.isEmpty || t.directories.contains names then some (.directory names)
      else none

def find (t : FileTree) (place : Place) (name : List Char) : Except FileError Place :=
  if Path.nameLimit < Text.byteLength name then
    .error .nameTooLong
  else
    match place with
    | .directory names =>
        match t.at? (names ++ [name]) with
        | some found => .ok found
        | none => .error .notFound
    | _ => .error .notFound

def enter (t : FileTree) (place : Place) (piece : List Char) : Except FileError Place :=
  match place with
  | .file _ => .error .notADirectory
  | .directory names =>
      if piece = [] ∨ piece = ['.'] then .ok place
      else if piece = ['.', '.'] then
        .ok (if names.isEmpty then .outside else .directory names.dropLast)
      else t.find place piece
  | .outside =>
      if piece = [] ∨ piece = ['.'] ∨ piece = ['.', '.'] then .ok place
      else t.find place piece

def follow (t : FileTree) (start : Place) (path : List (List Char)) : Except FileError Place :=
  path.foldlM t.enter start

def bytes (t : FileTree) (path : List Char) : Except FileError (List UInt8) :=
  let start : Place :=
    match path with
    | '/' :: _ => .outside
    | _ => .directory []
  if path.isEmpty then
    .error .notFound
  else if Path.limit < Text.byteLength path then
    .error .nameTooLong
  else
    match t.follow start (Path.pieces path) with
    | .ok (.file contents) => .ok contents
    | .ok _ => .error .isDirectory
    | .error error => .error error

def text (t : FileTree) (path : String) : Except FileError (List Char) :=
  match t.bytes path.toList with
  | .ok contents => FileError.decode contents
  | .error error => .error error

end FileTree
end ScopeLisp
