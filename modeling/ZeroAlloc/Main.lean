import ZeroAlloc.Command.Run
set_option autoImplicit false

/-! # The command line

The names of the files to work on come from standard input, one a line; a name with a slash at its
end is that of a directory. All else is decided by the commands. -/

namespace ZeroAlloc

/-- The lines of a stream, without their ends. -/
partial def readLines (input : IO.FS.Stream) : IO (List String) := do
  let line ← input.getLine
  if line.isEmpty then return []
  return String.ofList (line.toList.takeWhile (· ≠ '\n')) :: (← readLines input)

/-- The workspace with the file or directory of a name as it is on disk. -/
def loadEntry (w : Workspace) (name : String) : IO Workspace := do
  let place := Place.ofParts w.current (FilePath.parse name).parts
  if name.endsWith "/" then return { w with directories := place :: w.directories }
  let bytes ← IO.FS.readBinFile place.text
  return w.put place (.ofBytes bytes.toList)

/-- The workspace that consists of the files and directories of the names. -/
def loadWorkspace (names : List String) : IO Workspace := do
  let directory := toString (← IO.currentDir)
  let current := Place.ofParts [] (FilePath.parse directory).parts
  (names.filter (· ≠ "")).foldlM loadEntry ⟨current, [], []⟩

/-- Make the disk hold what a workspace holds and an earlier one did not. -/
def storeChanges (w earlier : Workspace) : IO Unit := do
  for place in w.directories do
    if !earlier.isDirectory place then IO.FS.createDirAll place.text
  for (place, content) in w.changesSince earlier do
    match content with
    | .text s => IO.FS.writeFile place.text s
    | .binary bytes => IO.FS.writeBinFile place.text ⟨bytes.toArray⟩

/-- What is printed on how to use the program. -/
def usage : String :=
  "usage: emptycheck lint PATH [--config FILE] [--format pretty|json|sarif]" ++
    " [--show-suppressed]\n" ++
  "       emptycheck fix PATH [--config FILE] [--dry-run]\n" ++
  "       emptycheck init [--output FILE]"

end ZeroAlloc

open ZeroAlloc in
/-- Carry out the command that the arguments ask for. -/
def main (args : List String) : IO UInt32 := do
  match Command.parse args with
  | .error .version =>
    IO.println (Report.toolName ++ " " ++ Report.toolVersion)
    return 0
  | .error e =>
    if e.status = 0 then IO.println usage else IO.eprintln usage
    return e.status.toUInt32
  | .ok command =>
    let w ← loadWorkspace (← readLines (← IO.getStdin))
    match command.run (← (← IO.getStdout).isTty) w with
    | .error e =>
      IO.eprintln ("Error: " ++ e.message)
      return 2
    | .ok outcome =>
      storeChanges outcome.workspace w
      IO.print outcome.output
      IO.eprint outcome.errors
      return outcome.status.toUInt32
