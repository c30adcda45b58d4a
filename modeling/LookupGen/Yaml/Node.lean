import LookupGen.Yaml.Cursor
import LookupGen.Yaml.Tag

/-!
# Nodes

The tree of a document. An alias is expanded to the node of its anchor, except inside that node
itself, where the tree ends with a note that it would go round.
-/

namespace LookupGen.Yaml

inductive NodeKind where
  | scalar
  | sequence
  | mapping
  deriving DecidableEq, Repr

def NodeKind.wording : NodeKind → Text
  | scalar => "scalar"
  | sequence => "sequence"
  | mapping => "mapping"

inductive Node where
  | scalar (tag : Tag) (start : Mark) (text : Text)
  | sequence (tag : Tag) (start : Mark) (items : List Node)
  | mapping (tag : Tag) (start : Mark) (pairs : List (Node × Node))
  /-- An alias inside the node of its anchor. -/
  | cycle (kind : NodeKind) (tag : Tag) (start : Mark)

namespace Node

def kind : Node → NodeKind
  | scalar _ _ _ => .scalar
  | sequence _ _ _ => .sequence
  | mapping _ _ _ => .mapping
  | cycle kind _ _ => kind

def tag : Node → Tag
  | scalar tag _ _ => tag
  | sequence tag _ _ => tag
  | mapping tag _ _ => tag
  | cycle _ tag _ => tag

def start : Node → Mark
  | scalar _ start _ => start
  | sequence _ start _ => start
  | mapping _ start _ => start
  | cycle _ _ start => start

end Node

/-- The tree of a document, if it has one, and a bound on its depth. -/
structure Document where
  root : Option Node
  bound : Nat

end LookupGen.Yaml
