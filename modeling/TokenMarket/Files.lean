import TokenMarket.Text.Split
import TokenMarket.Text.Utf8

/-!
# Text files

The client reads whole text files by the path that a person gives.
`FileError` lists why a path may yield no text.

`Directory` is a directory in memory, for sessions that must not touch a
disk.  It follows the usual rules for paths: empty parts and `.` stay
where they are, `..` goes up, a file ends the path, and a missing name
ends the search.  Above the directory there is nothing to be found.
-/

namespace TokenMarket

/-- Why a file has no text. -/
inductive FileError where
  | missing
  | notDirectory
  | isDirectory
  /-- The content is no UTF-8. -/
  | notText
  | other (reason : String)
deriving DecidableEq, Repr

/-- The complaint about bytes that are no UTF-8. -/
def notTextMessage : String := "stream did not contain valid UTF-8"

/-- The sentence that tells the cause. -/
def FileError.message : FileError → String
  | missing => "No such file or directory (os error 2)"
  | notDirectory => "Not a directory (os error 20)"
  | isDirectory => "Is a directory (os error 21)"
  | notText => notTextMessage
  | other reason => reason

/-- The text of a file's content. -/
def fileText (content : List UInt8) : Except FileError String :=
  match Utf8.decode? content with
  | some cs => .ok (String.ofList cs)
  | none => .error .notText

/-- A place in a directory: the names on the way to it, the last first. -/
abbrev Place := List String

/-- A directory in memory. -/
structure Directory where
  files : List (Place × List UInt8) := []
  folders : List Place := []

namespace Directory

/-- The parts of a path. -/
def parts (path : String) : List String :=
  (Text.splitOn '/' path.toList).map String.ofList

/-- The place that a plain path names. -/
def place (path : String) : Place :=
  ((parts path).filter (· != "")).reverse

/-- All places on the way to a place, itself excluded. -/
def above : Place → List Place
  | [] => []
  | _ :: rest => rest :: above rest

/-- Adds a file, and the folders on the way to it. -/
def addFile (d : Directory) (path : String) (content : List UInt8) : Directory :=
  { files := (place path, content) :: d.files
    folders := above (place path) ++ d.folders }

/-- Adds a folder, and the folders on the way to it. -/
def addFolder (d : Directory) (path : String) : Directory :=
  { d with folders := place path :: above (place path) ++ d.folders }

/-- Follows the parts of a path.  The walk stands at a place of the
directory, or outside of it. -/
def walk (d : Directory) : (position : Option Place) → List String → Except FileError (List UInt8)
  | _, [] => .error .isDirectory
  | position, part :: rest =>
    if part = "" ∨ part = "." then d.walk position rest
    else if part = ".." then
      match position with
      | some (_ :: up) => d.walk (some up) rest
      | _ => d.walk none rest
    else
      match position with
      | none => .error .missing
      | some here =>
        if d.folders.contains (part :: here) then d.walk (some (part :: here)) rest
        else
          match d.files.lookup (part :: here) with
          | some content => if rest = [] then .ok content else .error .notDirectory
          | none => .error .missing

/-- The content of the file at a path. -/
def content (d : Directory) (path : String) : Except FileError (List UInt8) :=
  if path = "" then .error .missing
  else if path.toList.head? = some '/' then d.walk none (parts path)
  else d.walk (some []) (parts path)

/-- The text of the file at a path. -/
def read (d : Directory) (path : String) : Except FileError String :=
  match d.content path with
  | .ok bytes => fileText bytes
  | .error e => .error e

end Directory

end TokenMarket
