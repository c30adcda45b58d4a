import LookupGen.Config
import LookupGen.Yaml.Value

/-!
# Loading settings

The settings of a project are a document in its directory. The document is nothing or a mapping
with known keys, each of which may be left out, be nothing, or be blank. Other keys say nothing.
-/

namespace LookupGen.Config

inductive Misfit where
  | notMapping
  | notString (key : Text)
  | notStrings (key : Text)
  | entryNotString (key : Text)
  deriving DecidableEq, Repr

def Misfit.message : Misfit → Text
  | notMapping => Text.join [fileName, " must contain a mapping at the root"]
  | notString key => Text.join ["'", key, "' must be a string"]
  | notStrings key => Text.join ["'", key, "' must be a string or a list of strings"]
  | entryNotString key => Text.join ["'", key, "' entries must be strings"]

inductive Failure where
  | unreadable (e : ReadError)
  /-- The text is no document, or its values do not fit their types. -/
  | noValue (source : Text) (e : Yaml.Failure)
  | misfit (m : Misfit)
  deriving DecidableEq, Repr

def Failure.message : Failure → Text
  | unreadable e => e.message
  | noValue source (.document e) =>
    Text.join ["Failed to parse ", fileName, ": ", e.message source]
  | noValue source e => e.message source
  | misfit m => m.message

/-- The value of a key, which is that of its last pair. -/
def get (pairs : List (Yaml.Value × Yaml.Value)) (key : Text) : Yaml.Value :=
  match pairs.reverse.find? fun (k, _) => match k with
    | .text t => decide (t = key)
    | _ => false with
  | some (_, v) => v
  | none => .null

def nonBlank? (t : Text) : Option Text :=
  if (Text.strip t).isEmpty then none else some (Text.strip t)

def string? (key : Text) : Yaml.Value → Except Misfit (Option Text)
  | .null => .ok none
  | .text t => .ok (nonBlank? t)
  | _ => .error (.notString key)

def entries (key : Text) : List Yaml.Value → Except Misfit (List Text)
  | [] => .ok []
  | .text t :: rest => (entries key rest).map ((nonBlank? t).toList ++ ·)
  | _ :: _ => .error (.entryNotString key)

def strings (key : Text) : Yaml.Value → Except Misfit (List Text)
  | .null => .ok []
  | .text t => .ok (nonBlank? t).toList
  | .list items => entries key items
  | _ => .error (.notStrings key)

def ofValue (root : Path) : Yaml.Value → Except Misfit Config
  | .null => .ok (default root)
  | .mapping pairs => do
    let marker ← string? "marker" (get pairs "marker")
    let sourceRoots ← strings "source_roots" (get pairs "source_roots")
    let outputDir ← string? "output_dir" (get pairs "output_dir")
    let errorLog ← string? "error_log" (get pairs "error_log")
    let excludePaths ← strings "exclude_paths" (get pairs "exclude_paths")
    return {
      root
      marker := marker.getD defaultMarker
      sourceRoots := if sourceRoots.isEmpty then [root] else sourceRoots.map (pathIn root)
      outputDir := pathIn root (outputDir.getD defaultOutputDir)
      errorLog := pathIn root (errorLog.getD defaultErrorLog)
      excludePaths }
  | _ => .error .notMapping

/-- The value of the text of a settings file; a blank text has that of nothing. -/
def valueOfText (t : Text) : Except Yaml.Failure Yaml.Value :=
  if Text.isAllBlank t then .ok .null else Yaml.Value.ofText t

def ofText (root : Path) (t : Text) : Except Failure Config :=
  match valueOfText t with
  | .error e => .error (.noValue t e)
  | .ok v =>
    match ofValue root v with
    | .error m => .error (.misfit m)
    | .ok c => .ok c

/-- The settings file for a path: in a directory, or beside a file that is no settings file. -/
def filePath (d : Disk) (p : Path) : Path :=
  if d.isDir p then d.resolve (p.child fileName)
  else if p.name = fileName then d.resolve p
  else d.resolve (p.parent.child fileName)

def load (d : Disk) (p : Path) : Except Failure Config :=
  let file := filePath d p
  let root := d.resolve file.parent
  if d.pathExists file then
    match d.readText file with
    | .error e => .error (.unreadable e)
    | .ok t => ofText root t
  else .ok (default root)

end LookupGen.Config
