import LookupGen.Text

/-!
# Tags

A tag says of which type a node is. Tags of the standard types are known by name; all others are
kept as they are written.
-/

namespace LookupGen.Yaml

/-- The standard types. The last three are for keys with a meaning of their own. -/
inductive CoreTag where
  | null
  | bool
  | int
  | float
  | binary
  | timestamp
  | omap
  | pairs
  | set
  | str
  | seq
  | map
  | merge
  | value
  | yaml
  deriving DecidableEq, Repr

inductive Tag where
  | core (tag : CoreTag)
  | other (text : Text)
  deriving DecidableEq, Repr

namespace Tag

def coreLead : Text := "tag:yaml.org,2002:"

def coreNames : List (Text × CoreTag) := [
  ("null", .null), ("bool", .bool), ("int", .int), ("float", .float), ("binary", .binary),
  ("timestamp", .timestamp), ("omap", .omap), ("pairs", .pairs), ("set", .set), ("str", .str),
  ("seq", .seq), ("map", .map), ("merge", .merge), ("value", .value), ("yaml", .yaml)]

def ofText (t : Text) : Tag :=
  match (if Text.startsWith t coreLead then coreNames.lookup (t.drop coreLead.length)
    else none) with
  | some tag => .core tag
  | none => .other t

def toText : Tag → Text
  | core tag =>
    match coreNames.find? fun (_, known) => decide (known = tag) with
    | some (name, _) => coreLead ++ name
    | none => coreLead
  | other t => t

end Tag

end LookupGen.Yaml
