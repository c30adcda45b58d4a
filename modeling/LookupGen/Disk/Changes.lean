import LookupGen.Disk

/-!
# Changes of a disk

An operation that fails names the cause and the path it was given; what it had done before the
failure stays done. The changes between two states of a disk are the files that differ. Directories
without files do not count.
-/

namespace LookupGen

namespace Node

/-- The tree with a node put where names lead. Directories that are missing on the way are
made; below a file nothing is put. -/
def put (tree : Node) (names : List Text) (new : Node) : Node :=
  match names, tree with
  | [], _ => new
  | name :: rest, dir entries =>
    dir (Table.put name (put ((entries.lookup name).getD emptyDir) rest new) entries)
  | _ :: _, file content => file content

def erase (tree : Node) (names : List Text) : Node :=
  match names, tree with
  | [], _ => tree
  | [name], dir entries => dir (entries.filter fun e => decide (e.1 ≠ name))
  | name :: rest, dir entries =>
    match entries.lookup name with
    | some child => dir (Table.put name (erase child rest) entries)
    | none => dir entries
  | _ :: _, file content => file content

mutual

def files : Node → List (List Text × Bytes)
  | file content => [([], content)]
  | dir entries => filesOf entries

def filesOf : List (Text × Node) → List (List Text × Bytes)
  | [] => []
  | (name, child) :: rest =>
    (files child).map (fun (names, content) => (name :: names, content)) ++ filesOf rest

end

end Node

/-- An operation on a disk. It leaves the disk changed also where it fails. -/
abbrev DiskM := ExceptT DiskError (StateM Disk)

namespace Disk

def put (d : Disk) (names : List Text) (node : Node) : Disk :=
  { d with root := d.root.put names node }

def remove (d : Disk) (p : Path) : Disk :=
  match d.locate p with
  | .ok (.taken names _) => { d with root := d.root.erase names }
  | _ => d

def makeDir (p : Path) : DiskM Unit := do
  match (← get).locate p with
  | .ok (.free names) => modify (·.put names Node.emptyDir)
  | .ok (.taken _ _) => throw ⟨.exists, p.toText⟩
  | .error fault => throw ⟨fault, p.toText⟩

/-- Makes a directory unless it is there, after the directories above it. The names are given from
the last one to the first. -/
def makeDirsFrom (anchor : Anchor) : List Text → DiskM Unit
  | [] => makeDirUnlessThere ⟨anchor, []⟩
  | name :: above => do
    let p : Path := ⟨anchor, (name :: above).reverse⟩
    try makeDir p
    catch e =>
      if e.fault = .missing then
        makeDirsFrom anchor above
        makeDirUnlessThere p
      else if (← get).isDir p then pure ()
      else throw e
where
  makeDirUnlessThere (p : Path) : DiskM Unit := do
    try makeDir p
    catch e => if e.fault ≠ .missing ∧ (← get).isDir p then pure () else throw e

def makeDirs (p : Path) : DiskM Unit := makeDirsFrom p.anchor p.names.reverse

def target (p : Path) : DiskM (List Text × Bytes) := do
  match (← get).locate p with
  | .ok (.free names) => pure (names, [])
  | .ok (.taken names (.file content)) => pure (names, content)
  | .ok (.taken _ (.dir _)) => throw ⟨.isDirectory, p.toText⟩
  | .error fault => throw ⟨fault, p.toText⟩

def write (p : Path) (content : Bytes) : DiskM Unit := do
  let (names, _) ← target p
  modify (·.put names (.file content))

def append (p : Path) (content : Bytes) : DiskM Unit := do
  let (names, old) ← target p
  modify (·.put names (.file (old ++ content)))

def files (d : Disk) : Table (List Text) Bytes := d.root.files

/-- The files that are new or have another content than before, with their content now, and after
them the files that are gone. -/
def changes (before after : Disk) : List (List Text × Option Bytes) :=
  let old := before.files
  let new := after.files
  let written := new.filter fun (names, content) => decide (old.lookup names ≠ some content)
  let gone := old.filter fun (names, _) => (new.lookup names).isNone
  written.map (fun (names, content) => (names, some content)) ++
    gone.map fun (names, _) => (names, none)

end Disk

end LookupGen
