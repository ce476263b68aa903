import PerpRollout.CommandLine.Run
import PerpRollout.Ledger.File

/-!
# The program

Runs one command in the current directory.  All decisions are made on values by
`CommandLine.run`: here the files that a run may touch are read before it, and
what it changed is written after it.
-/

namespace PerpRollout.CommandLine

/-- What the settings are when the command line leaves them open. -/
def programDefaults : Defaults where
  databaseUrl := "sqlite:///data_storage/deployments.db"

def usageText : String :=
  "usage: perp-rollout [--config-file FILE] [--database-url URL] [--log-level LEVEL] " ++
    "[--log-file FILE] [" ++ "|".intercalate commandNames ++ "] ...\n"

/-- The file that a ledger is kept in, if it is kept in one. -/
def Invocation.ledgerPath? (i : Invocation) : Option Path :=
  match (Ledger.Url.ofText i.databaseUrl).location with
  | .memory => none
  | .file path => some path

/-- What the bytes of a file are: a ledger, or just bytes. -/
def contentOf (b : ByteArray) : Content :=
  match (String.fromUTF8? b).bind Ledger.ofFileText? with
  | some l => .ledger l
  | none => .bytes b

/-- Adds what there is on the way to a path: directories, and files with their
contents unless only the way is of interest. -/
def visit (withFile : Bool) (files : Files Content) (path : Path) : IO (Files Content) := do
  let here ← IO.currentDir
  let mut files := files
  let mut place : List String := []
  if path.root.isEmpty && !path.hasNull then
    for name in path.names do
      place := if name = ".." then place.dropLast else place ++ [name]
      let found := here / "/".intercalate place
      if ← found.isDir then files := files.addDirectory place
      else if withFile && (← found.pathExists) then
        files := files.put place (contentOf (← IO.FS.readBinFile found))
  return files

/-- The files that a run may touch.  A log is only added to, so what it holds is
not read. -/
def Invocation.files (i : Invocation) : IO (Files Content) := do
  let mut files : Files Content := {}
  if let some path := i.configFile then files ← visit true files (.ofText path)
  if let some path := i.ledgerPath? then files ← visit true files path
  if let some path := i.logSettings.path? then files ← visit false files path
  return files

/-- Writes what a run left behind. -/
def writeBack (files : Files Content) : IO Unit := do
  let here ← IO.currentDir
  for directory in files.directories do
    IO.FS.createDirAll (here / "/".intercalate directory)
  for (names, content) in files.contents do
    let file := here / "/".intercalate names
    match content with
    | .bytes _ => pure ()
    | .ledger l => IO.FS.writeFile file l.fileText
    | .log lines =>
      IO.FS.withFile file .append fun h =>
        h.putStr (String.join (lines.map fun l => l.text ++ "\n"))

/-- The exit code of a run that failed. -/
def failureCode : UInt32 := 1

/-- Runs the program and gives its exit code. -/
def program (arguments : List String) : IO UInt32 := do
  let files ← match Invocation.parse programDefaults arguments with
    | .ok i => i.files
    | .error _ => pure {}
  let outcome := run programDefaults arguments files
  writeBack outcome.files
  for line in outcome.lines do
    IO.eprintln line.text
  match outcome.ending with
  | .exit code output =>
    IO.print output
    return code.toUInt32
  | .usage code =>
    if code = 0 then IO.print usageText else IO.eprint usageText
    return code.toUInt32
  | .failed e =>
    IO.eprintln (e.message?.getD "the ledger or a number is out of reach")
    return failureCode

end PerpRollout.CommandLine

def main (arguments : List String) : IO UInt32 :=
  PerpRollout.CommandLine.program arguments
