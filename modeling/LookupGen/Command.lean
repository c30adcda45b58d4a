import LookupGen.CommandLine

/-!
# Commands

Carries out a command line: the journal is set up first, then the command runs. A fault of the
project that is worked on is answered with a message; any other failure is handed on.
-/

namespace LookupGen

structure Response where
  status : Nat
  out : Text
  err : Text
  deriving DecidableEq, Repr

inductive CommandFailure where
  | journal (e : DiskError)
  | run (e : RunFailure)

def CommandFailure.message : CommandFailure → Text
  | journal e => e.message
  | run e => e.message

def ReadError.isMissing : ReadError → Bool
  | disk e => decide (e.fault = .missing)
  | encoding _ => false

/-- Whether a run breaks off for a fault of the project: something is missing, a source file is
faulty, or the settings are. -/
def RunFailure.isExpected : RunFailure → Bool
  | missingProject _ => true
  | config (.unreadable e) => e.isMissing
  | config (.misfit _) => true
  | config (.noValue _ (.document _)) => true
  | config (.noValue _ _) => false
  | tree (.ignoreFile e) => e.isMissing
  | tree (.missingRoot _) => true
  | source (.unreadable _ _) => true
  | source (.malformed _ _) => true
  | source (.undecodable _) => false
  | source (.notOneCharacter _) => false
  | generation (.missingValue _) => true
  | generation (.unrecordable _) => false

namespace Command

def name : Command → Text
  | generate _ => "generate"
  | list _ => "list"

def threshold (verbose : Bool) : Level := if verbose then .debug else .info

/-- Makes the file for the records of a journal and the directories above it, unless they are
there, and gives the path of the file from the root. -/
def openFile (path : Path) : DiskM Path := do
  Disk.makeDirs path.parent
  let file := (← get).resolve path
  Disk.append file []
  return file

def startJournal (c : CommandLine) : SessionM (Except DiskError Unit) := do
  modify fun s => { s with journal := Journal.start (threshold c.verbose) none s.journal.time }
  match c.logFile with
  | none => return .ok ()
  | some path =>
    match ← Session.onDisk (openFile path) with
    | .error e => return .error e
    | .ok file =>
      modify fun s => { s with journal := { s.journal with file := some file } }
      return .ok ()

def outcomeText (o : Outcome) : Text :=
  o.generated.flatMap fun name =>
    if o.dryRun then Text.join ["// ", name, "\n", (o.outputs.lookup name).getD []]
    else Text.join ["Generated ", name, "\n"]

def errorsMessage (count : Nat) : Text :=
  Text.join ["constgen generate reported ", Text.ofNat count,
    " error(s). Run with --verbose for more details.\n"]

def ofOutcome (shown : Text) (o : Outcome) : Response :=
  match (Diagnostic.errors o.diagnostics).length with
  | 0 => ⟨0, outcomeText o, shown⟩
  | n + 1 => ⟨1, outcomeText o, shown ++ errorsMessage (n + 1)⟩

def summaryText (s : Summary) : Text :=
  Text.join [s.name, " -> ", s.target, " (", Text.ofNat s.constants, " constants)\n"]

def ofSummaries (shown : Text) (summaries : List Summary) : Response :=
  let out : Text :=
    if summaries.isEmpty then "No constant providers found\n" else summaries.flatMap summaryText
  ⟨0, out, shown⟩

def ofFailure (c : Command) (shown : Text) (e : RunFailure) : Response :=
  ⟨1, [], Text.join [shown, "constgen ", c.name, " failed: ", e.message, "\n"]⟩

def run (c : Command) : Run.RunM (Text → Response) := do
  match c with
  | .generate r =>
    let o ← Run.generate .project r
    return fun shown => ofOutcome shown o
  | .list path =>
    let summaries ← Run.list .project path
    return fun shown => ofSummaries shown summaries

def perform (c : CommandLine) : SessionM (Except CommandFailure Response) := do
  match ← startJournal c with
  | .error e => return .error (.journal e)
  | .ok () =>
    let result ← (run c.command).run
    let shown := (← get).journal.shown
    match result with
    | .ok respond => return .ok (respond shown)
    | .error e =>
      return if e.isExpected then .ok (ofFailure c.command shown e) else .error (.run e)

end Command

end LookupGen
