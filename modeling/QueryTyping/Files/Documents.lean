import QueryTyping.Files.Tree

/-!
# Finding documents

Which documents some paths stand for.  A path to a file stands for that file.  A path to a
directory stands for all JSON files below it, in the order of the names on the way to them.
-/

namespace QueryTyping.FileTree

/-- The name is that of a JSON file: it ends in `.json` and has something before that. -/
def isJsonName (name : String) : Bool :=
  name.endsWith ".json" && name != ".json"

/-- The first names come first alphabetically. -/
def namesLe (a b : List String) : Bool := !decide (b < a)

/-- The names that lead to the JSON files in an entry, in order. -/
def jsonFilesBelow (e : FileEntry) : List (List String) :=
  (e.filesBelow.filter fun names => names.getLast?.any isJsonName).mergeSort namesLe

/-- The documents that a path stands for. -/
def documentsAt (t : FileTree) (p : Path) : Except AccessError (List Path) := do
  match ← t.entry p with
  | .file _ => .ok [p]
  | e => .ok ((jsonFilesBelow e).map p.joinAll)

end QueryTyping.FileTree
