import LookupGen.Literal
import LookupGen.Name

/-!
# Lookup classes

A lookup class has a table of constants and the name of the source class that they come from.
`render` writes its text; one without entries has none.
-/

namespace LookupGen

structure Entry where
  name : Name
  value : Text
  deriving DecidableEq, Repr

/-- A lookup class to write: its own name, that of its source class, and its table. -/
structure LookupClass where
  target : Name
  source : Name
  entries : List Entry
  deriving DecidableEq, Repr

namespace LookupClass

def defaultGenerator : Text := "org.apache.camel:apt"

def headLine (generator : Text) : Text := Text.join ["/* Generated by ", generator, " */"]

/-- The lines that declare the package; a class of the unnamed package has none. -/
def packageLines (package : Name) : List Text :=
  if package.isEmpty then [] else [Text.join ["package ", package, ";"], ""]

def openingLines (generator simple : Text) (size : Nat) : List Text := [
  "import java.util.HashMap;",
  "import java.util.Map;",
  "",
  "/**",
  Text.join [" * Source code generated by ", generator],
  " */",
  Text.join ["public class ", simple, " \x7b"],
  "",
  "    private static final Map<String, String> MAP;",
  "    static \x7b",
  Text.join ["        Map<String, String> map = new HashMap<>(", Text.ofNat size, ");"]]

def entryLine (e : Entry) : Text :=
  Text.join ["        map.put(\"", Literal.encode e.name, "\", \"", Literal.encode e.value, "\");"]

def closingLines : List Text := [
  "        MAP = map;",
  "    \x7d",
  "",
  "    public static String lookup(String key) \x7b",
  "        return MAP.get(key);",
  "    \x7d",
  "\x7d",
  ""]

def lines (generator : Text) (c : LookupClass) : List Text :=
  headLine generator :: (packageLines (Name.package c.target) ++
    openingLines generator (Name.simple c.target) c.entries.length ++
    c.entries.map entryLine ++ closingLines)

/-- The text of a lookup class; nothing for one without entries. -/
def render (generator : Text) (c : LookupClass) : Option Text :=
  if c.entries.isEmpty then none
  else some ((lines generator c).flatMap fun line => Text.join [line, "\n"])

/-- By target, and by source where targets are equal. -/
def atMost (a b : LookupClass) : Bool :=
  decide (a.target < b.target) || (decide (a.target = b.target) && Text.atMost a.source b.source)

def sort (classes : List LookupClass) : List LookupClass := classes.mergeSort atMost

end LookupClass

end LookupGen
