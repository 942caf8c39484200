import ScenarioLint.Text

/-!
A directory of files, and what reading and writing them does.

Paths start from the directory.  Nothing is known of what lies outside it.
-/

namespace ScenarioLint

/-- Why a file cannot be read or written. -/
inductive FileError where
  | notFound
  | isDirectory
  | notDirectory
  /-- The bytes of the file are no UTF-8. -/
  | notText
  /-- Any other reason, in the words of the system. -/
  | refused (reason : Text)
  deriving DecidableEq, Repr

namespace FileError

def message : FileError → Text
  | notFound => "No such file or directory (os error 2)".toList
  | isDirectory => "Is a directory (os error 21)".toList
  | notDirectory => "Not a directory (os error 20)".toList
  | notText => "stream did not contain valid UTF-8".toList
  | refused reason => reason

end FileError

/-- What the path of a file gives to those who read it. -/
abbrev Reader := Text → Except FileError Text

inductive Entry where
  | directory
  /-- A file, with its text unless its bytes are no UTF-8. -/
  | file (content : Option Text)
  deriving DecidableEq, Repr

def Entry.ofBytes (bytes : List UInt8) : Entry :=
  .file (Text.ofBytes? bytes)

/-- A directory: its entries by the names on the way to them.  Where a place has several entries,
    the first one counts. -/
structure Directory where
  entries : List (List Text × Entry)
  deriving DecidableEq, Repr

namespace Directory

/-- The pieces of a path that lead somewhere. -/
def names (path : Text) : List Text :=
  (path.pieces '/').filter fun piece => !piece.isEmpty && piece != ['.']

def ofList (entries : List (Text × Entry)) : Directory :=
  ⟨entries.map fun (path, entry) => (names path, entry)⟩

/-- The entry at a place.  A place on the way to another entry is a directory. -/
def entry? (d : Directory) (place : List Text) : Option Entry :=
  match d.entries.lookup place with
  | some entry => some entry
  | none =>
    if place.isEmpty || d.entries.any (fun (other, _) => place.isPrefixOf other) then
      some .directory
    else none

/-- Follows the pieces of a path from a place.  Every place that the path goes through has to be a
    directory, while the last one need not exist. -/
def walk (d : Directory) (place : List Text) : List Text → Except FileError (List Text)
  | [] => .ok place
  | piece :: rest =>
    match d.entry? place with
    | none => .error .notFound
    | some (.file _) => .error .notDirectory
    | some .directory =>
      if piece.isEmpty || piece = ['.'] then walk d place rest
      else if piece = ['.', '.'] then
        if place.isEmpty then .error .notFound else walk d place.dropLast rest
      else walk d (place ++ [piece]) rest

def place (d : Directory) (path : Text) : Except FileError (List Text) :=
  match path with
  | [] => .error .notFound
  | '/' :: _ => if (names path).isEmpty then .ok [] else .error .notFound
  | path => d.walk [] (path.pieces '/')

def read (d : Directory) : Reader := fun path => do
  let place ← d.place path
  match d.entry? place with
  | none => .error .notFound
  | some .directory => .error .isDirectory
  | some (.file none) => .error .notText
  | some (.file (some t)) => .ok t

def withoutSlash (path : Text) : Text :=
  (path.reverse.dropWhile (· = '/')).reverse

/-- Puts a text into the file at a path, which need not exist yet.  A path that ends with a slash
    names a directory. -/
def write (d : Directory) (path content : Text) : Except FileError Directory := do
  let place ← d.place (if (names path).isEmpty then path else withoutSlash path)
  if path.getLast? = some '/' || d.entry? place = some .directory then .error .isDirectory
  else .ok ⟨(place, .file (some content)) :: d.entries⟩

end Directory

end ScenarioLint
