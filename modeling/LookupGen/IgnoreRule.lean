import LookupGen.Glob
import LookupGen.Text

/-!
# Ignore rules

A rule says which files and directories are left out when sources are looked for. Among several
rules the last one that matches decides, and a negated rule takes a path in again.
-/

namespace LookupGen

structure IgnoreRule where
  pattern : Text
  directoryOnly : Bool
  /-- Matches from the front of the path only. -/
  anchored : Bool
  /-- Takes in what it matches. -/
  negated : Bool
  deriving DecidableEq, Repr

namespace IgnoreRule

/-- A pattern with a slash is meant for whole paths. -/
def hasSlash (r : IgnoreRule) : Bool := r.pattern.contains (CodePoint.ofChar '/')

/-- The rule that a text states; a blank text states none. -/
def ofText? (negated : Bool) (t : Text) : Option IgnoreRule :=
  let t := Text.strip t
  if t.isEmpty then none
  else
    let directoryOnly := Text.endsWith t "/"
    let t := if directoryOnly then t.dropLast else t
    let anchored := Text.startsWith t "/"
    some ⟨if anchored then t.drop 1 else t, directoryOnly, anchored, negated⟩

def isMatch (r : IgnoreRule) (path : Text) (isDir : Bool) : Bool :=
  if r.pattern.isEmpty || (r.directoryOnly && !isDir) then false
  else if r.anchored || r.hasSlash then
    Glob.isMatch (Glob.ofText r.pattern) path ||
      (r.directoryOnly && Text.startsWith path (Text.join [r.pattern, "/"]))
  else
    (Text.splitAll '/' path).any fun name => Glob.isMatch (Glob.ofText r.pattern) name

def ofLine? (line : Text) : Option IgnoreRule :=
  match Text.strip line with
  | [] => none
  | c :: rest =>
    if c = '#' then none
    else if c = '!' then ofText? true rest
    else ofText? false (c :: rest)

def ofFile (t : Text) : List IgnoreRule := (Text.lines t).filterMap ofLine?

/-- Whether a path is left out: the last rule that matches it is not negated. -/
def isIgnored (rules : List IgnoreRule) (path : Text) (isDir : Bool) : Bool :=
  match rules.reverse.find? fun r => r.isMatch path isDir with
  | some r => !r.negated
  | none => false

end IgnoreRule

end LookupGen
