import LookupGen.Config.Load
import LookupGen.Generation
import LookupGen.SourceReader
import LookupGen.SourceTree

/-!
# Runs on projects

A run reads the settings of a project and its sources, and then generates the lookup classes or
lists the marked types. Everything is read before anything is written.
-/

namespace LookupGen

inductive RunFailure where
  /-- There is nothing at the path of the project, which is given as it was asked for. -/
  | missingProject (path : Text)
  | config (e : Config.Failure)
  | tree (e : SourceTree.Failure)
  | source (e : SourceError)
  | generation (e : Generation.Abort)

def RunFailure.message : RunFailure → Text
  | missingProject path => Text.join ["Project path not found: ", path]
  | config e => e.message
  | tree (.ignoreFile e) => e.message
  | tree (.missingRoot path) => SourceTree.missingRootMessage path
  | source e => e.message
  | generation e => e.message

/-- Where the elements of a program come from: the sources of the project, or a list. -/
inductive ElementSource where
  | project
  | given (elements : List Element)

structure Request where
  path : Text
  /-- A directory for lookup classes in place of the one that is set. -/
  outputDir : Option Path
  dryRun : Bool

structure Outcome where
  generated : List Name
  diagnostics : List Diagnostic
  outputDir : Option Path
  outputs : Table Name Text
  dryRun : Bool

structure Summary where
  name : Name
  target : Name
  constants : Nat
  deriving DecidableEq, Repr

namespace Run

open Generation (Progress ProgressM)

abbrev RunM := ExceptT RunFailure SessionM

def orFail {ε α : Type} (failure : ε → RunFailure) : Except ε α → RunM α
  | .ok a => return a
  | .error e => throw (failure e)

def record (level : Level) (part text : Text) : RunM Unit :=
  ExceptT.lift (Session.record level part text)

def runPart : Text := "orchestrator"

def readerPart : Text := "sources.java"

def loadConfig (path : Text) : RunM Config := do
  let d := (← get).disk
  let project := d.resolve (Path.ofText path)
  if d.pathExists project then orFail .config (Config.load d project)
  else throw (.missingProject path)

def sourceFiles (c : Config) : RunM (List Path) := do
  let d := (← get).disk
  let tree ← orFail .tree (SourceTree.ofConfig d c (some c.outputDir))
  let files ← orFail .tree (tree.sources d)
  record .debug runPart (Text.join ["Scanner found ", Text.ofNat files.length, " Java files"])
  return files

def readElements (c : Config) (files : List Path) : RunM (List Element) := do
  let (result, reader) := SourceReader.elements (← get).disk (SourceReader.ofFiles files [c.marker])
  let elements ← orFail .source result
  record .debug readerPart (Text.join ["Parsed ", Text.ofNat files.length, " Java files into ",
    Text.ofNat reader.program.types.length, " types"])
  return elements

/-- The source files from which the elements of a program come, if they do not come from a list. -/
def locate (source : ElementSource) (c : Config) : RunM (Option (List Path)) :=
  match source with
  | .given _ => return none
  | .project => do return some (← sourceFiles c)

def elements (source : ElementSource) (c : Config) (files : Option (List Path)) :
    RunM (List Element) :=
  match source with
  | .given elements => return elements
  | .project => readElements c (files.getD [])

def rules (c : Config) : Rules :=
  ⟨c.marker, LookupClass.defaultGenerator, fun _ => true, some c.errorLog⟩

def inProgress {α : Type} (sink : Sink) (m : ProgressM α) : RunM (α × Progress) := do
  let (a, progress) := m.run ⟨← get, sink, []⟩
  set progress.session
  return (a, progress)

def generate (source : ElementSource) (r : Request) : RunM Outcome := do
  let set ← loadConfig r.path
  let outputDir := (← get).disk.resolve (r.outputDir.getD set.outputDir)
  let c := { set with outputDir }
  let files ← locate source c
  record .info runPart (Text.join ["Starting generate run for ", c.root.toText])
  let elements ← elements source c files
  let sink := if r.dryRun then Sink.inMemory else Sink.below outputDir
  let (result, progress) ← inProgress sink (Generation.process (rules c) elements)
  let result ← orFail .generation result
  record .info runPart (Text.join ["Generated ", Text.ofNat result.generated.length, " of ",
    Text.ofNat (result.generated.length + result.failed.length), " lookup classes"])
  return {
    generated := result.generated
    diagnostics := progress.diagnostics
    outputDir := if r.dryRun then none else some outputDir
    outputs := progress.sink.outputs
    dryRun := r.dryRun }

/-- The summary of a marked type. Warnings about its constants go to the journal alone. -/
def summary (m : MarkedType) : ProgressM Summary := do
  let (c, warnings) := Generation.extract m
  warnings.forM Generation.report
  return ⟨m.name, m.target, c.entries.length⟩

def list (source : ElementSource) (path : Text) : RunM (List Summary) := do
  let c ← loadConfig path
  let files ← locate source c
  let elements ← elements source c files
  let found := Generation.discover (fun _ => true) (Element.annotatedWith c.marker elements)
  match Generation.markedTypes c.marker found with
  | .error e => throw (.generation (.missingValue e))
  | .ok marked =>
    let (summaries, _) ← inProgress Sink.inMemory (marked.mapM summary)
    return summaries

end Run

end LookupGen
