import MarkupLint.Command.Run
import Std.Time.DateTime.Timestamp

/-! # The executable

    Reads the working directory into a file tree, runs the command on it,
    prints what the command writes and puts the changed files back. -/

namespace MarkupLint.Executable

/-- Adds what a directory entry holds to a file tree, under its path from the
    working directory.  Links to directories are not followed, and what cannot
    be read is left out. -/
partial def readEntry (parent : String) (tree : FileTree) (e : IO.FS.DirEntry) : IO FileTree := do
  let path := Path.join parent e.fileName
  try
    match (← e.path.symlinkMetadata).type with
    | .dir =>
      let mut tree := tree.put path .directory
      for child in ← e.path.readDir do
        tree ← readEntry path tree child
      return tree
    | _ => return tree.put path (.file (← IO.FS.readBinFile e.path).toList)
  catch _ => return tree

/-- The files below the working directory. -/
def readTree : IO FileTree := do
  let mut tree : FileTree := {}
  for e in ← (← IO.currentDir).readDir do
    tree ← readEntry "" tree e
  return tree

/-- Makes the files of the working directory those of a tree. -/
def writeTree (before after : FileTree) : IO Unit := do
  for (path, entry) in before.entries do
    if entry ≠ .directory && !after.entries.has path then
      IO.FS.removeFile path
  for (path, entry) in after.entries do
    if before.entries.get? path ≠ some entry then
      match entry with
      | .directory => IO.FS.createDirAll path
      | .file content =>
        IO.FS.createDirAll (Path.dir path)
        IO.FS.writeBinFile path (ByteArray.mk content.toArray)

/-- The time for dates in documents: that of the environment, or now. -/
def clock (now : Std.Time.Timestamp) : IO Int := do
  let given ← IO.getEnv "SOURCE_DATE_EPOCH"
  return (given.bind String.toInt?).getD now.toSecondsSinceUnixEpoch.val

/-- Whether standard output is a terminal that may show colours. -/
def showsColours : IO Bool := do
  let plain := ((← IO.getEnv "NO_COLOR").getD "") ≠ ""
  return !plain && (← (← IO.getStdout).isTty)

/-- Runs the command in the working directory. -/
def run (words : List String) : IO Nat := do
  let now ← Std.Time.Timestamp.now
  let files ← readTree
  let ctx : CommandContext := {
    files := files, clock := ← clock now
    now := now.toNanosecondsSinceUnixEpoch.val, terminal := ← showsColours }
  let result := Command.run ctx "dev" words
  for line in result.log do
    IO.eprintln line
  IO.eprint result.complaint
  IO.print result.output
  writeTree files result.files
  return result.exit

end MarkupLint.Executable

/-- The command line. -/
def main (words : List String) : IO UInt32 := do
  return UInt32.ofNat (← MarkupLint.Executable.run words)
