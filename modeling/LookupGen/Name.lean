import LookupGen.Text
import LookupGen.Unicode.Case
import LookupGen.Unicode.Identifier

/-!
# Qualified type names

A qualified name is a sequence of segments with dots between them. It is valid if each segment is an
identifier of the Java language and no reserved word. Names that differ only by case fall together
under a key.
-/

namespace LookupGen

abbrev Name := Text

namespace Name

def reservedWords : List Text := List.map Text.ofString [
  "abstract", "assert", "boolean", "break", "byte", "case", "catch", "char",
  "class", "const", "continue", "default", "do", "double", "else", "enum",
  "extends", "final", "finally", "float", "for", "goto", "if", "implements",
  "import", "instanceof", "int", "interface", "long", "native", "new",
  "package", "private", "protected", "public", "return", "short", "static",
  "strictfp", "super", "switch", "synchronized", "this", "throw", "throws",
  "transient", "try", "void", "volatile", "while", "true", "false", "null",
  "_"]

def isStart (c : CodePoint) : Bool := c = '$' || Unicode.isIdentifierStart c

def isPart (c : CodePoint) : Bool := c = '$' || Unicode.isIdentifierPart c

def isIdentifier (t : Text) : Bool :=
  match t with
  | [] => false
  | c :: rest => isStart c && rest.all isPart && !reservedWords.contains t

def segments (n : Name) : List Text := Text.splitAll '.' n

def isValid (n : Name) : Bool := (segments n).all isIdentifier

/-- The name with the dots of a source name where a binary name has dollar signs. -/
def canonical (n : Name) : Name := Text.replace '$' '.' n

/-- The package, which is empty for a name without dots. -/
def package (n : Name) : Name :=
  match Text.splitLast '.' n with
  | some (before, _) => before
  | none => []

def simple (n : Name) : Name :=
  match Text.splitLast '.' n with
  | some (_, after) => after
  | none => n

/-- A name inside a scope; the empty scope adds nothing. -/
def within (scope n : Name) : Name :=
  if scope.isEmpty then n else Text.join [scope, ".", n]

def foldPoint (c : CodePoint) : CodePoint := Unicode.lower (Unicode.upper c)

/-- The key of a name that ignores case. Each code point goes to upper and then to lower case on its
own. -/
def fold (n : Name) : Text := n.map foldPoint

end Name

end LookupGen
