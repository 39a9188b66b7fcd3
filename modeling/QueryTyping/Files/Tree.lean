import QueryTyping.Files.Path

/-!
# File trees

A tree of directories and files, and where a path leads in it.  A path is followed name by name
from the working directory or from the root: `.` and empty names stay in a directory, `..` goes up
from it.
-/

namespace QueryTyping

/-- A file or a directory. -/
inductive FileEntry where
  | file (content : ByteArray)
  | directory (entries : List (String × FileEntry))
  deriving Inhabited

/-- Why a path could not be followed or read. -/
inductive AccessError where
  | notFound
  | notDirectory
  | isDirectory
  | nameTooLong
  | notText
  deriving DecidableEq, Repr

/-- The report of an access that failed. -/
def AccessError.message : AccessError → String
  | notFound => "No such file or directory (os error 2)"
  | notDirectory => "Not a directory (os error 20)"
  | isDirectory => "Is a directory (os error 21)"
  | nameTooLong => "File name too long (os error 36)"
  | notText => "stream did not contain valid UTF-8"

namespace FileEntry

/-- The entries of a directory; a file has none. -/
def entries : FileEntry → List (String × FileEntry)
  | file _ => []
  | directory es => es

/-- Whether it is a file. -/
def isFile : FileEntry → Bool
  | file _ => true
  | directory _ => false

/-- The entry that some names lead to. -/
def at? (e : FileEntry) : List String → Option FileEntry
  | [] => some e
  | name :: names => (e.entries.lookup name).bind fun child => child.at? names

/-- Set the entry of a name. -/
def setChild (name : String) (child : FileEntry) (e : FileEntry) : FileEntry :=
  if (e.entries.lookup name).isSome then
    directory (e.entries.map fun entry => if entry.1 = name then (name, child) else entry)
  else directory (e.entries ++ [(name, child)])

/-- Put an entry where some names lead, making the directories that are missing. -/
def put (new : FileEntry) : List String → FileEntry → FileEntry
  | [], _ => new
  | name :: names, e =>
      setChild name (put new names ((e.entries.lookup name).getD (directory []))) e

/-- Make a directory where some names lead, unless there is one. -/
def makeDirectory : List String → FileEntry → FileEntry
  | [], e => e
  | name :: names, e =>
      setChild name (makeDirectory names ((e.entries.lookup name).getD (directory []))) e

mutual

/-- The names that lead to the files in an entry. -/
def filesBelow : FileEntry → List (List String)
  | file _ => [[]]
  | directory es => filesAmong es

/-- The names that lead to the files in some entries. -/
def filesAmong : List (String × FileEntry) → List (List String)
  | [] => []
  | (name, e) :: es => e.filesBelow.map (name :: ·) ++ filesAmong es

end

end FileEntry

/-- All files there are, and the names that lead to the working directory. -/
structure FileTree where
  root : FileEntry
  working : List String
  deriving Inhabited

namespace FileTree

/-- The largest number of bytes of a name. -/
def nameLimit : Nat := 255

/-- The first number of bytes that is too large for a whole path. -/
def pathLimit : Nat := 4096

/-- Follow one segment of a path. -/
def follow (t : FileTree) (place : List String) (segment : String) :
    Except AccessError (List String) :=
  match t.root.at? place with
  | some (.directory es) =>
      if segment = "" ∨ segment = "." then .ok place
      else if segment = ".." then .ok place.dropLast
      else if nameLimit < segment.utf8ByteSize then .error .nameTooLong
      else if (es.lookup segment).isSome then .ok (place ++ [segment])
      else .error .notFound
  | some (.file _) => .error .notDirectory
  | none => .error .notFound

/-- The names that lead to the same place as a path. -/
def resolve (t : FileTree) (p : Path) : Except AccessError (List String) :=
  if p.text = "" then .error .notFound
  else if pathLimit ≤ p.text.utf8ByteSize then .error .nameTooLong
  else p.segments.foldlM t.follow (if p.isAbsolute then [] else t.working)

/-- The entry that a path leads to. -/
def entry (t : FileTree) (p : Path) : Except AccessError FileEntry := do
  match t.root.at? (← t.resolve p) with
  | some e => .ok e
  | none => .error .notFound

/-- Whether a path leads to a file. -/
def isFile (t : FileTree) (p : Path) : Bool :=
  match t.entry p with
  | .ok e => e.isFile
  | .error _ => false

/-- The text of the file that a path leads to. -/
def readText (t : FileTree) (p : Path) : Except AccessError String := do
  match ← t.entry p with
  | .directory _ => .error .isDirectory
  | .file content =>
      match String.fromUTF8? content with
      | some text => .ok text
      | none => .error .notText

end FileTree
end QueryTyping
