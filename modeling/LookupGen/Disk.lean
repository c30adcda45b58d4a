import LookupGen.Disk.Path
import LookupGen.Table
import LookupGen.Text.Encoding

/-!
# Disk

A disk is a tree of directories and files together with a current directory. There are no links,
so a path leads to one place. A look at the disk that fails names the cause and the path it was
given. A text file is read as UTF-8, and every line end in it becomes LF.
-/

namespace LookupGen

inductive Node where
  | file (content : Bytes)
  | dir (entries : List (Text × Node))

namespace Node

def emptyDir : Node := dir []

def isDir : Node → Bool
  | dir _ => true
  | file _ => false

def entry? (name : Text) : Node → Option Node
  | dir entries => entries.lookup name
  | file _ => none

def at? (node : Node) : List Text → Option Node
  | [] => some node
  | name :: rest =>
    match node.entry? name with
    | some child => child.at? rest
    | none => none

end Node

inductive DiskFault where
  | missing
  | exists
  | notDirectory
  | isDirectory
  deriving DecidableEq, Repr

namespace DiskFault

def number : DiskFault → Nat
  | missing => 2
  | «exists» => 17
  | notDirectory => 20
  | isDirectory => 21

def wording : DiskFault → Text
  | missing => "No such file or directory"
  | «exists» => "File exists"
  | notDirectory => "Not a directory"
  | isDirectory => "Is a directory"

end DiskFault

structure DiskError where
  fault : DiskFault
  path : Text
  deriving DecidableEq, Repr

def DiskError.message (e : DiskError) : Text :=
  Text.join ["[Errno ", Text.ofNat e.fault.number, "] ", e.fault.wording, ": ",
    Text.quoted e.path]

/-- A tree and the names that lead to the current directory. -/
structure Disk where
  root : Node
  current : List Text

/-- Where a path leads: to a node, or to a free name in a directory. -/
inductive Place where
  | taken (names : List Text) (node : Node)
  | free (names : List Text)

namespace Disk

def follow (root : Node) (here : List Text) (node : Node) : List Text → Except DiskFault Place
  | [] => .ok (.taken here node)
  | name :: rest =>
    match node with
    | .file _ => .error .notDirectory
    | .dir entries =>
      if name = Path.up then
        follow root here.dropLast ((root.at? here.dropLast).getD root) rest
      else
        match entries.lookup name with
        | some child => follow root (here ++ [name]) child rest
        | none => if rest.isEmpty then .ok (.free (here ++ [name])) else .error .missing

def locate (d : Disk) (p : Path) : Except DiskFault Place :=
  match p.anchor with
  | .relative => follow d.root d.current ((d.root.at? d.current).getD d.root) p.names
  | _ => follow d.root [] d.root p.names

def node? (d : Disk) (p : Path) : Option Node :=
  match d.locate p with
  | .ok (.taken _ node) => some node
  | _ => none

def pathExists (d : Disk) (p : Path) : Bool := (d.node? p).isSome

def isDir (d : Disk) (p : Path) : Bool := (d.node? p).any Node.isDir

def isFile (d : Disk) (p : Path) : Bool := (d.node? p).any fun node => !node.isDir

/-- The path from the root without `..`. -/
def resolve (d : Disk) (p : Path) : Path := p.resolve d.current

def read (d : Disk) (p : Path) : Except DiskError Bytes :=
  match d.locate p with
  | .ok (.taken _ (.file content)) => .ok content
  | .ok (.taken _ (.dir _)) => .error ⟨.isDirectory, p.toText⟩
  | .ok (.free _) => .error ⟨.missing, p.toText⟩
  | .error fault => .error ⟨fault, p.toText⟩

end Disk

inductive ReadError where
  | disk (e : DiskError)
  | encoding (e : Utf8.DecodeError)
  deriving DecidableEq, Repr

def ReadError.message : ReadError → Text
  | disk e => e.message
  | encoding e => e.message

def Disk.readText (d : Disk) (p : Path) : Except ReadError Text :=
  match d.read p with
  | .error e => .error (.disk e)
  | .ok content =>
    match Utf8.decode content with
    | .error e => .error (.encoding e)
    | .ok t => .ok (Text.unifyLineEnds t)

end LookupGen
