import LookupGen.Disk
import LookupGen.Name

/-!
# Configuration

What a project may set, and what holds where it sets nothing.
-/

namespace LookupGen

structure Config where
  root : Path
  /-- The annotation that asks for a lookup class. -/
  marker : Name
  sourceRoots : List Path
  outputDir : Path
  errorLog : Path
  /-- Patterns of paths in which no sources are looked for. -/
  excludePaths : List Text
  deriving DecidableEq, Repr

namespace Config

def fileName : Text := ".constgen.yml"

def defaultMarker : Name := "org.apache.camel.spi.annotations.ConstantProvider"

def defaultOutputDir : Text := "target/generated-sources/constgen"

def defaultErrorLog : Text := "camel-apt-error.log"

def pathIn (root : Path) (t : Text) : Path := root.join (Path.ofText t)

def default (root : Path) : Config :=
  ⟨root, defaultMarker, [root], pathIn root defaultOutputDir, pathIn root defaultErrorLog, []⟩

end Config

end LookupGen
