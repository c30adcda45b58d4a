import LookupGen.Diagnostic

/-!
# Error log

A file to which failures are added for a later look. It grows from run to run. A failure to write
it is a warning and no more, but an entry must have a UTF-8 form.
-/

namespace LookupGen

/-- An entry of an error log: what failed, the label and the wording of the cause, and whether the
cause arose in a run. -/
structure LogEntry where
  heading : Text
  label : Text
  cause : Text
  traced : Bool
  deriving DecidableEq, Repr

namespace LogEntry

def traceLine : Text := "<traceback>\n"

/-- The last line of a cause; one without wording has its label alone. -/
def causeLine (e : LogEntry) : Text :=
  if e.cause.isEmpty then Text.join [e.label, "\n"] else Text.join [e.label, ": ", e.cause, "\n"]

def toText (e : LogEntry) : Text :=
  Text.join [e.heading, "\n\n", if e.traced then traceLine else [], e.causeLine, "\n"]

end LogEntry

namespace ErrorLog

def openFile (path : Path) : DiskM Unit := do
  Disk.makeDirs path.parent
  Disk.append path []

def unwritableMessage (path : Path) (e : DiskError) : Text :=
  Text.join ["Unable to write error log ", path.toText, ": ", e.message]

def add (path : Path) (e : LogEntry) : SessionM (Except Utf8.EncodeError Bool) := do
  match ← Session.onDisk (openFile path) with
  | .error fault =>
    Session.record .warning Diagnostic.part (unwritableMessage path fault)
    return .ok false
  | .ok () =>
    match Utf8.encode e.toText with
    | .error fault => return .error fault
    | .ok content =>
      match ← Session.onDisk (Disk.append path content) with
      | .error fault =>
        Session.record .warning Diagnostic.part (unwritableMessage path fault)
        return .ok false
      | .ok () => return .ok true

end ErrorLog

end LookupGen
