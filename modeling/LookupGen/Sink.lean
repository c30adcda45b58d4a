import LookupGen.Disk.Changes
import LookupGen.Name

/-!
# Sinks for lookup classes

A sink gives out each name once, and then takes texts for it as often as it is asked to. It keeps
them in memory or below a directory. In memory only complete texts are kept; on a disk a text that
breaks off stays as far as it came.
-/

namespace LookupGen

inductive Store where
  | memory (outputs : Table Name Text)
  | directory (root : Path)

/-- A sink: where it keeps texts, and the names that it has given out. -/
structure Sink where
  store : Store
  created : List Name

inductive NameFault where
  | invalid (name : Name)
  | repeated (name : Name)
  deriving DecidableEq, Repr

def NameFault.message : NameFault → Text
  | invalid name => Text.join ["Invalid type name '", name, "'"]
  | repeated name => Text.join ["Attempt to recreate a file for type '", name, "'"]

inductive WriteFault where
  | disk (e : DiskError)
  | encoding (e : Utf8.EncodeError)
  deriving DecidableEq, Repr

def WriteFault.message : WriteFault → Text
  | disk e => e.message
  | encoding e => e.message

/-- A text as it comes from its writer: its parts, and whether the writer came to its end. -/
structure Draft where
  parts : List Text
  complete : Bool
  deriving DecidableEq, Repr

namespace Sink

def inMemory : Sink := ⟨.memory [], []⟩

def below (root : Path) : Sink := ⟨.directory root, []⟩

/-- The texts that are kept in memory, in the order in which they first came. -/
def outputs (s : Sink) : Table Name Text :=
  match s.store with
  | .memory outputs => outputs
  | .directory _ => []

def fileSuffix : Text := ".java"

/-- The file of a name below a directory: a directory for each segment of the package. -/
def pathOf (root : Path) (name : Name) : Path :=
  let package := Name.package name
  let dir :=
    if package.isEmpty then root
    else (Name.segments package).foldl (fun dir segment => dir.join (Path.ofText segment)) root
  dir.join (Path.ofText (Text.join [Name.simple name, fileSuffix]))

def create (name : Name) (s : Sink) : Except NameFault Sink :=
  if !Name.isValid name then .error (.invalid name)
  else if s.created.contains name then .error (.repeated name)
  else .ok { s with created := name :: s.created }

/-- An operation that keeps texts. It leaves the disk changed also where it fails. -/
abbrev WriteM := ExceptT WriteFault (StateM Disk)

def onDisk {α : Type} (m : DiskM α) : WriteM α := fun d =>
  match m.run d with
  | (.ok a, d) => (.ok a, d)
  | (.error e, d) => (.error (.disk e), d)

/-- Adds parts of a text to a file up to the first that has no UTF-8 form. -/
def appendParts (path : Path) : List Text → WriteM Unit
  | [] => return
  | part :: rest =>
    match Utf8.encode part with
    | .error e => throw (.encoding e)
    | .ok content => do
      onDisk (Disk.append path content)
      appendParts path rest

def write (name : Name) (draft : Draft) (s : Sink) : WriteM Sink := do
  match s.store with
  | .memory outputs =>
    if draft.complete then
      return { s with store := .memory (Table.put name (Text.join draft.parts) outputs) }
    else return s
  | .directory root =>
    let path := pathOf root name
    onDisk (Disk.makeDirs path.parent)
    onDisk (Disk.write path [])
    appendParts path draft.parts
    return s

end Sink

end LookupGen
