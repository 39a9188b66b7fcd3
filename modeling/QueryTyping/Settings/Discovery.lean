import QueryTyping.Files.Tree
import QueryTyping.Settings.Basic

/-!
# Finding settings

The settings of a document are in the nearest file of the fixed name, looked for in the directory
of the document and then in its parents, as the path of the document names them.

Main statements: `discoverFrom_of_isFile` says that a file in the directory itself is taken, and
`discoverFrom_of_not_isFile` that otherwise the parent decides.
-/

namespace QueryTyping.FileTree

/-- The settings file at or above a directory. -/
def discoverFrom (t : FileTree) (directory : Path) : Option Path :=
  if t.isFile (directory.join settingsFile) then some (directory.join settingsFile)
  else
    match _h : directory.parent? with
    | some above => t.discoverFrom above
    | none => none
termination_by directory.size
decreasing_by exact Path.size_parent_lt _h

/-- The settings file for what a path leads to. -/
def discover (t : FileTree) (p : Path) : Option Path :=
  if t.isFile p then p.parent?.bind t.discoverFrom else t.discoverFrom p

theorem discoverFrom_of_isFile {t : FileTree} {directory : Path}
    (h : t.isFile (directory.join settingsFile) = true) :
    t.discoverFrom directory = some (directory.join settingsFile) := by
  rw [discoverFrom, if_pos h]

theorem discoverFrom_of_not_isFile {t : FileTree} {directory : Path}
    (h : t.isFile (directory.join settingsFile) = false) :
    t.discoverFrom directory = directory.parent?.bind t.discoverFrom := by
  rw [discoverFrom, if_neg (by simp [h])]
  split <;> rename_i hp <;> simp [hp]

end QueryTyping.FileTree
