import LookupGen.Command
import LookupGen.Disk.Changes

/-!
# The program

Carries out the command line that it is given. The files that it may read are listed on standard
input, a path on each line. What the command writes is written when it has ended.
-/

namespace LookupGen.Main

def usage : Text :=
  "usage: constgen [-h] [-v] [--log-file FILE] (generate | list) [-v] [--log-file FILE] [PATH]\n"

/-- A text as it goes to an output. A half of a UTF-16 pair has no form there. -/
def bytesOf (t : Text) : ByteArray :=
  match Utf8.encode (t.map fun c => if c.isSurrogate then CodePoint.ofChar '?' else c) with
  | .ok content => ⟨content.toArray⟩
  | .error _ => ⟨#[]⟩

def pathOf (names : List Text) : String :=
  String.ofList ((Path.toText ⟨.root, names⟩).map fun c => Char.ofNat c.val)

def addFile (d : Disk) (path : String) : IO Disk := do
  let content ← IO.FS.readBinFile path
  return d.put (d.resolve (Path.ofText path)).names (.file content.toList)

def readDisk (input : IO.FS.Stream) : IO Disk := do
  let current := (Path.ofText (toString (← IO.currentDir))).names
  let empty : Disk := ⟨Node.emptyDir.put current Node.emptyDir, current⟩
  (← input.lines).foldlM addFile empty

def writeChange (change : List Text × Option Bytes) : IO Unit :=
  match change with
  | (names, some content) => do
    IO.FS.createDirAll (pathOf names.dropLast)
    IO.FS.writeBinFile (pathOf names) ⟨content.toArray⟩
  | (names, none) => IO.FS.removeFile (pathOf names)

def perform (c : CommandLine) (input output errors : IO.FS.Stream) : IO UInt32 := do
  let disk ← readDisk input
  let time := Text.ofNat (← IO.monoMsNow)
  let (result, session) := (Command.perform c).run ⟨disk, Journal.start .info none time⟩
  (Disk.changes disk session.disk).forM writeChange
  match result with
  | .ok r =>
    output.write (bytesOf r.out)
    errors.write (bytesOf r.err)
    return r.status.toUInt32
  | .error e =>
    errors.write (bytesOf (Text.join [session.journal.shown, e.message, "\n"]))
    return 1

end LookupGen.Main

def main (args : List String) : IO UInt32 := do
  let output ← IO.getStdout
  let errors ← IO.getStderr
  match LookupGen.CommandLine.read (args.map LookupGen.Text.ofString) with
  | .ok c => LookupGen.Main.perform c (← IO.getStdin) output errors
  | .error .help =>
    output.write (LookupGen.Main.bytesOf LookupGen.Main.usage)
    return 0
  | .error .misuse =>
    errors.write (LookupGen.Main.bytesOf LookupGen.Main.usage)
    return 2
