import LookupGen.Disk
import LookupGen.Java.Grammar
import LookupGen.Program.Elements

/-!
# Reading source files

A reader turns source files into the elements of one program. It reads them when it is first
asked; once that succeeds it gives the same elements for ever. A file that cannot be read or is
no source text ends the attempt. What was read before stays in the reader, and the next attempt
reads all files again on top of it.
-/

namespace LookupGen

inductive SourceError where
  | unreadable (path : Path) (e : DiskError)
  | malformed (path : Path) (line : Nat)
  | undecodable (e : Utf8.DecodeError)
  | notOneCharacter (size : Nat)
  deriving DecidableEq, Repr

def SourceError.message : SourceError → Text
  | unreadable path e => Text.join ["Unable to read ", path.toText, ": ", e.message]
  | malformed path line => Text.join [path.toText, ":", Text.ofNat line, ": Java syntax error"]
  | undecodable e => e.message
  | notOneCharacter size =>
    Text.join ["a character literal with ", Text.ofNat size, " characters"]

structure SourceReader where
  files : List Path
  program : Program
  evaluation : EvalState
  found : Option (List Element)

namespace SourceReader

def ofFiles (files : List Path) (known : List Name) : SourceReader :=
  ⟨files, ⟨[], known⟩, EvalState.empty, none⟩

def readFile (d : Disk) (p : Program) (path : Path) : Except SourceError Program :=
  match d.read path with
  | .error e => .error (.unreadable path e)
  | .ok content =>
    match Java.parseFile content with
    | .error line => .error (.malformed path line)
    | .ok items =>
      match p.addFile path.toText items with
      | .error e => .error (.undecodable e)
      | .ok program => .ok program

/-- The program with files added up to the first that fails, and why it fails. -/
def readFiles (d : Disk) (p : Program) : List Path → Program × Option SourceError
  | [] => (p, none)
  | path :: rest =>
    match readFile d p path with
    | .error e => (p, some e)
    | .ok program => readFiles d program rest

def ofEvalError : EvalError → SourceError
  | .undecodable e => .undecodable e
  | .notOneCharacter size => .notOneCharacter size

def elements (d : Disk) (r : SourceReader) : Except SourceError (List Element) × SourceReader :=
  match r.found with
  | some elements => (.ok elements, r)
  | none =>
    match readFiles d r.program r.files with
    | (program, some e) => (.error e, { r with program })
    | (program, none) =>
      match (program.elements.run).run r.evaluation with
      | (.ok elements, evaluation) =>
        (.ok elements, { r with program, evaluation, found := some elements })
      | (.error e, evaluation) => (.error (ofEvalError e), { r with program, evaluation })

end SourceReader

end LookupGen
