import LookupGen.Element
import LookupGen.ErrorLog
import LookupGen.LookupClass
import LookupGen.Sink

/-!
# Generation of lookup classes

From the elements of a program to lookup classes: the marked types are found, their string
constants are collected, and a lookup class is written for each type that has some. A type that is
marked without saying for which class ends the generation before anything is written; a class that
cannot be written is reported, and the others are written all the same.
-/

namespace LookupGen

/-- A marked type with the name of the lookup class that it asks for. -/
structure MarkedType where
  name : Name
  target : Name
  element : Element

structure Rules where
  marker : Name
  generator : Text
  /-- A type that may be marked. -/
  accepts : Element → Bool
  errorLog : Option Path

namespace Generation

/-- A type at the top of a file that may be marked. -/
def isCandidate (accepts : Element → Bool) (e : Element) : Bool :=
  e.kind.isType && !e.nested && accepts e

/-- The candidates under their source names. Of several with one name the last one counts. -/
def candidates (accepts : Element → Bool) (elements : List Element) : Table Name Element :=
  (elements.filter (isCandidate accepts)).foldl
    (fun t e => Table.put (Name.canonical e.name) e t) []

def sortByKey {α : Type} (t : Table Text α) : Table Text α :=
  t.mergeSort fun a b => Text.atMost a.1 b.1

def discover (accepts : Element → Bool) (elements : List Element) : Table Name Element :=
  sortByKey (candidates accepts elements)

/-- The marked ones among some types. Every marker must say for which class it is. -/
def markedTypes (marker : Name) : Table Name Element → Except MissingValue (List MarkedType)
  | [] => .ok []
  | (name, e) :: rest =>
    match e.annotationNamed? marker with
    | none => markedTypes marker rest
    | some a => do
      let target ← a.value AnnotationData.mainElement
      let more ← markedTypes marker rest
      return ⟨name, target.toText, e⟩ :: more

def constant? (f : Field) : Option Entry :=
  if f.type = stringType then f.constant.bind fun v => v.text?.map fun t => ⟨f.name, t⟩ else none

def constants (e : Element) : List Entry := (e.fields.filterMap constant?).eraseDups

def dropMessage (owner : Name) (dropped kept : Entry) : Text :=
  Text.join ["Constants ", dropped.name, " and ", kept.name, " on ", owner,
    " differ only by case; keeping ", kept.name]

def dropWarning? (owner : Name) (previous : Option Entry) (e : Entry) : Option Diagnostic :=
  match previous with
  | none => none
  | some p =>
    if p.name = e.name then none else some ⟨.warning, dropMessage owner p e, some owner⟩

/-- The constants under their names without case, and a warning for each that is dropped. Of
several constants under one key the last one counts. -/
def collect (owner : Name) (es : List Entry) : Table Text Entry × List Diagnostic :=
  es.foldl (fun (t, warnings) e =>
    let key := Name.fold e.name
    (Table.put key e t, warnings ++ (dropWarning? owner (t.lookup key) e).toList)) ([], [])

/-- The lookup class of a marked type, with its constants in ascending order of their names
without case, and the warnings about those that are dropped. -/
def extract (m : MarkedType) : LookupClass × List Diagnostic :=
  let (table, warnings) := collect m.name (constants m.element)
  (⟨m.target, m.name, (sortByKey table).map (·.2)⟩, warnings)

structure Progress where
  session : Session
  sink : Sink
  diagnostics : List Diagnostic

abbrev ProgressM := StateM Progress

def inSession {α : Type} (m : SessionM α) : ProgressM α := fun p =>
  let (a, session) := m.run p.session
  (a, { p with session })

def record (level : Level) (text : Text) : ProgressM Unit :=
  inSession (Session.record level "processor" text)

def report (d : Diagnostic) : ProgressM Unit := do
  modify fun p => { p with diagnostics := p.diagnostics ++ [d] }
  inSession d.record

inductive Failure where
  | name (e : NameFault)
  | noEntries (target : Name)
  | write (e : WriteFault)
  deriving DecidableEq, Repr

def Failure.message : Failure → Text
  | name e => e.message
  | noEntries target => Text.join ["Refusing to render '", target, "' without entries"]
  | write e => e.message

def diskLabel : DiskFault → Text
  | .missing => "FileNotFoundError"
  | .exists => "FileExistsError"
  | .notDirectory => "NotADirectoryError"
  | .isDirectory => "IsADirectoryError"

def Failure.label : Failure → Text
  | name _ => "constgen.filer.FilerError"
  | noEntries _ => "ValueError"
  | write (.disk e) => diskLabel e.fault
  | write (.encoding _) => "UnicodeEncodeError"

/-- The text of a lookup class as it comes from its writer; that of a class without entries breaks
off before its first part. -/
def draft (generator : Text) (c : LookupClass) : Draft :=
  match c.render generator with
  | some t => ⟨[t], true⟩
  | none => ⟨[], false⟩

def deliver (generator : Text) (c : LookupClass) : ProgressM (Except Failure Unit) := do
  let p ← get
  match p.sink.create c.target with
  | .error e => return .error (.name e)
  | .ok sink =>
    let text := draft generator c
    let (result, disk) := (sink.write c.target text).run p.session.disk
    let session := { p.session with disk }
    match result with
    | .error e =>
      set { p with session, sink }
      return .error (.write e)
    | .ok sink =>
      set { p with session, sink }
      return if text.complete then .ok () else .error (.noEntries c.target)

def failureHeading (c : LookupClass) : Text :=
  Text.join ["Unable to generate source code file: ", c.target]

/-- Writes a lookup class, and says whether that went well. What fails is reported and recorded in
the error log. -/
def generate (r : Rules) (c : LookupClass) : ProgressM (Except Utf8.EncodeError Bool) := do
  match ← deliver r.generator c with
  | .ok () =>
    record .info
      (Text.join ["Generated ", c.target, " (", Text.ofNat c.entries.length, " constants)"])
    return .ok true
  | .error e =>
    let heading := failureHeading c
    report ⟨.error, Text.join [heading, ": ", e.message], some c.source⟩
    match r.errorLog with
    | none => return .ok false
    | some path =>
      match ← inSession (ErrorLog.add path ⟨heading, e.label, e.message, true⟩) with
      | .error fault => return .error fault
      | .ok _ => return .ok false

/-- What came of a generation: the lookup classes that were written and those that were not, and
the marked types without constants. -/
structure Result where
  generated : List Name
  failed : List Name
  skipped : List Name
  deriving DecidableEq, Repr

inductive Abort where
  | missingValue (e : MissingValue)
  /-- The error log cannot hold what has to be recorded. -/
  | unrecordable (e : Utf8.EncodeError)
  deriving DecidableEq, Repr

def Abort.message : Abort → Text
  | missingValue e => e.message
  | unrecordable e => e.message

/-- Collects the constants of marked types. Types without constants are told apart. -/
def extractAll : List MarkedType → ProgressM (List LookupClass × List Name)
  | [] => return ([], [])
  | m :: rest => do
    let (c, warnings) := extract m
    warnings.forM report
    if c.entries.isEmpty then
      record .debug (Text.join ["No string constants on ", m.name, "; skipping"])
      let (classes, skipped) ← extractAll rest
      return (classes, m.name :: skipped)
    else
      let (classes, skipped) ← extractAll rest
      return (c :: classes, skipped)

def generateAll (r : Rules) :
    List LookupClass → ProgressM (Except Utf8.EncodeError (List Name × List Name))
  | [] => return .ok ([], [])
  | c :: rest => do
    match ← generate r c with
    | .error e => return .error e
    | .ok written =>
      match ← generateAll r rest with
      | .error e => return .error e
      | .ok (generated, failed) =>
        return .ok (if written then (c.target :: generated, failed)
          else (generated, c.target :: failed))

def process (r : Rules) (elements : List Element) : ProgressM (Except Abort Result) := do
  let found := discover r.accepts (Element.annotatedWith r.marker elements)
  record .debug (Text.join ["Discovered ", Text.ofNat found.length, " constant provider classes"])
  match markedTypes r.marker found with
  | .error e => return .error (.missingValue e)
  | .ok marked =>
    let (classes, skipped) ← extractAll marked
    match ← generateAll r (LookupClass.sort classes) with
    | .error e => return .error (.unrecordable e)
    | .ok (generated, failed) => return .ok ⟨generated, failed, skipped⟩

end Generation

end LookupGen
