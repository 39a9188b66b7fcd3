import QueryTyping.CommandLine.Run

/-!
# The program

The outer layer: it takes a picture of the files that the arguments may concern, runs the request
on it, prints what was printed, and exits.
-/

namespace QueryTyping

/-- The file or directory at a path, with everything below it. -/
partial def snapshot (path : String) : IO (Option FileEntry) := do
  match ← (IO.FS.realPath path).toBaseIO with
  | .error _ => return none
  | .ok place =>
    if ← place.isDir then
      let mut entries := []
      for entry in ← place.readDir do
        if let some child ← snapshot (path ++ "/" ++ entry.fileName) then
          entries := (entry.fileName, child) :: entries
      return some (.directory entries)
    else
      return some (.file (← IO.FS.readBinFile path))

/-- Add what is at a path to a picture of the files. -/
def addPath (working : List String) (root : FileEntry) (p : Path) : IO FileEntry := do
  match ← snapshot p.text with
  | some entry => return FileEntry.put entry (p.names working) root
  | none => return root

/-- The files that some paths may concern: what is at them, and settings at or above them. -/
def pictureOf (working : List String) (texts : List String) : IO FileTree := do
  let mut root := FileEntry.makeDirectory working (.directory [])
  for text in texts do
    root ← addPath working root (.ofText text)
  for text in texts do
    for directory in (Path.ofText text).ancestors do
      root ← addPath working root (directory.join settingsFile)
  return ⟨root, working⟩

/-- The paths that arguments mention. -/
def mentionedPaths (words : List String) : List String :=
  match Command.ofArguments words with
  | .ok request => request.command.mentioned
  | .error _ => []

end QueryTyping

open QueryTyping in
def main (words : List String) : IO UInt32 := do
  let here ← IO.currentDir
  let working := (Path.ofText here.toString).names []
  let done := runProgram (← pictureOf working (mentionedPaths words)) words
  IO.print done.out
  IO.eprint done.err
  if let some fault := done.fault then IO.eprintln fault.message
  return UInt32.ofNat done.exitCode
