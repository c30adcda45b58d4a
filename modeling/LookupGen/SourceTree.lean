import LookupGen.Config
import LookupGen.IgnoreRule

/-!
# The sources of a project

Sources are looked for in the source roots. The search does not enter directories that hold no
sources by their name, by their place, or by an ignore rule; what lies below such a directory is
not found, whatever the rules say of it. A source root itself is always entered.
-/

namespace LookupGen

structure SourceTree where
  root : Path
  sourceRoots : List Path
  /-- The directory with generated sources, which is not entered. -/
  outputDir : Option Path
  /-- The ignore rules, later ones before earlier ones in force. -/
  rules : List IgnoreRule

namespace SourceTree

inductive Failure where
  | ignoreFile (e : ReadError)
  | missingRoot (path : Path)
  deriving DecidableEq, Repr

def missingRootMessage (path : Path) : Text := Text.join ["Source root not found: ", path.toText]

/-- Directories of tools, which are not entered anywhere. -/
def toolDirs : List Text := List.map Text.ofString
  [".git", ".hg", ".svn", ".venv", ".gradle", ".idea", "node_modules", "__pycache__"]

/-- Directories with build output, which are not entered directly below the project directory. -/
def buildDirs : List Text := List.map Text.ofString ["target", "build"]

def sourceSuffix : Text := ".java"

def ignoreFileName : Text := ".gitignore"

/-- The path to which ignore rules apply: that below the project directory, or the whole path of
what lies outside. -/
def shownPath (s : SourceTree) (p : Path) : Text :=
  match s.root.below? p with
  | some names => (Path.mk .relative names).toText
  | none => p.toText

def skips (s : SourceTree) (dir : Path) : Bool :=
  toolDirs.contains dir.name ||
  (buildDirs.contains dir.name && decide (dir.parent = s.root)) ||
  decide (s.outputDir = some dir) ||
  IgnoreRule.isIgnored s.rules (s.shownPath dir) true

def takes (s : SourceTree) (file : Path) : Bool :=
  Text.endsWith file.name sourceSuffix && !IgnoreRule.isIgnored s.rules (s.shownPath file) false

mutual

def sourcesAt (s : SourceTree) (here : Path) : Node → List Path
  | .file _ => if s.takes here then [here] else []
  | .dir entries => sourcesIn s here entries

def sourcesIn (s : SourceTree) (here : Path) : List (Text × Node) → List Path
  | [] => []
  | (name, child) :: rest =>
    (if child.isDir && s.skips (here.child name) then []
      else sourcesAt s (here.child name) child) ++
      sourcesIn s here rest

end

/-- The sources of one source root. A root that is a file needs no more than the right suffix. -/
def sourcesOf (d : Disk) (s : SourceTree) (sourceRoot : Path) : Except Failure (List Path) :=
  let here := d.resolve sourceRoot
  match d.node? here with
  | none => .error (.missingRoot sourceRoot)
  | some (.file _) => .ok (if here.suffix = sourceSuffix then [here] else [])
  | some (.dir entries) => .ok (sourcesIn s here entries)

/-- The paths in ascending order, name by name, each once. -/
def sortPaths (ps : List Path) : List Path :=
  (ps.mergeSort fun p q => Path.namesAtMost p.names q.names).eraseDups

def sources (d : Disk) (s : SourceTree) : Except Failure (List Path) :=
  (s.sourceRoots.mapM (sourcesOf d s)).map fun found => sortPaths found.flatten

def projectRules (d : Disk) (root : Path) : Except Failure (List IgnoreRule) :=
  let path := root.child ignoreFileName
  if d.pathExists path then
    match d.readText path with
    | .ok t => .ok (IgnoreRule.ofFile t)
    | .error e => .error (.ignoreFile e)
  else .ok []

/-- What the settings of a project say about its sources. The patterns of the settings come after
those of the ignore file. -/
def ofConfig (d : Disk) (c : Config) (outputDir : Option Path) : Except Failure SourceTree :=
  (projectRules d c.root).map fun rules =>
    ⟨d.resolve c.root, c.sourceRoots, outputDir.map d.resolve,
      rules ++ c.excludePaths.filterMap (IgnoreRule.ofText? false)⟩

end SourceTree

end LookupGen
