import LookupGen.Text

/-!
# File paths

A path is an anchor and the names that lead on from it. Empty names and single dots say nothing
and are left out when a path is read; `..` is kept, since it has a meaning only on a disk.
-/

namespace LookupGen

/-- Where a path starts: at the current directory, at the root, or at the root written with two
slashes. -/
inductive Anchor where
  | relative
  | root
  | doubleRoot
  deriving DecidableEq, Repr

structure Path where
  anchor : Anchor
  names : List Text
  deriving DecidableEq, Repr

namespace Path

def up : Text := ".."

def anchorOf (t : Text) : Anchor :=
  if Text.startsWith t "///" then .root
  else if Text.startsWith t "//" then .doubleRoot
  else if Text.startsWith t "/" then .root
  else .relative

def ofText (t : Text) : Path :=
  ⟨anchorOf t, (Text.splitAll '/' t).filter fun name => !name.isEmpty && decide (name ≠ ".")⟩

def anchorText : Anchor → Text
  | .relative => ""
  | .root => "/"
  | .doubleRoot => "//"

/-- The text of a path; the relative path without names is a dot. -/
def toText (p : Path) : Text :=
  let t := anchorText p.anchor ++ Text.joinWith "/" p.names
  if t.isEmpty then "." else t

def join (p q : Path) : Path :=
  match q.anchor with
  | .relative => ⟨p.anchor, p.names ++ q.names⟩
  | _ => q

def child (p : Path) (name : Text) : Path := ⟨p.anchor, p.names ++ [name]⟩

/-- The last name, empty for an anchor alone. -/
def name (p : Path) : Text := p.names.getLast?.getD []

/-- Without the last name; an anchor alone is its own parent. -/
def parent (p : Path) : Path := ⟨p.anchor, p.names.dropLast⟩

/-- The last name from its last dot on, if there is a name before and something after the dot. -/
def suffix (p : Path) : Text :=
  match Text.splitLast '.' p.name with
  | some (before, after) =>
    if before.isEmpty || after.isEmpty then [] else Text.join [".", after]
  | none => []

/-- The names of a path from the root with every `..` carried out on those before it. -/
def settle (names : List Text) : List Text :=
  names.foldl (fun done name => if name = up then done.dropLast else done ++ [name]) []

def resolve (current : List Text) (p : Path) : Path :=
  match p.anchor with
  | .relative => ⟨.root, settle (current ++ p.names)⟩
  | _ => ⟨.root, settle p.names⟩

/-- The names that lead from `base` to `p`, if `p` lies at or below it. -/
def below? (base p : Path) : Option (List Text) :=
  if base.anchor = p.anchor ∧ base.names.isPrefixOf p.names then
    some (p.names.drop base.names.length)
  else none

def namesAtMost (a b : List Text) : Bool := decide (¬ b < a)

end Path

end LookupGen
