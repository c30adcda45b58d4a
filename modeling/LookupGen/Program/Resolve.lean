import LookupGen.Program

/-!
# Resolution of names

Which type or field a name means at a place in a program. Inner scopes come before outer ones,
imports of single names before the package, and the package before imports on demand.
-/

namespace LookupGen

/-- A place in a program: a file, and the scopes around the place, the innermost first. -/
structure Site where
  file : FileScope
  scopes : List TypeScope

/-- A field with the place of its declaration, whose innermost scope is the type that declares
it. -/
structure FieldRef where
  site : Site
  owner : TypeScope
  field : FieldDecl

namespace FieldRef

def key (f : FieldRef) : Nat × Name := (f.owner.id, f.field.name)

end FieldRef

def impliedTypes : List Name := List.map Text.ofString [
  "Boolean", "Byte", "CharSequence", "Character", "Class", "Comparable",
  "Deprecated", "Double", "Enum", "Error", "Exception", "Float",
  "FunctionalInterface", "Integer", "Iterable", "Long", "Math", "Number",
  "Object", "Override", "Record", "Runnable", "RuntimeException",
  "SafeVarargs", "Short", "String", "StringBuilder", "SuppressWarnings",
  "System", "Thread", "Throwable", "Void"]

def impliedPackage : Name := "java.lang"

namespace DeclaredType

def site (t : DeclaredType) : Site := ⟨t.file, t.scope :: t.enclosing⟩

def outerSite (t : DeclaredType) : Site := ⟨t.file, t.enclosing⟩

def field? (t : DeclaredType) (name : Name) : Option FieldRef :=
  (t.scope.field? name).map fun f => ⟨t.site, t.scope, f⟩

def fieldRefs (t : DeclaredType) : List FieldRef :=
  t.scope.fields.map fun f => ⟨t.site, t.scope, f⟩

end DeclaredType

def typeInScopes (name : Name) : List TypeScope → Option Name
  | [] => none
  | s :: outer =>
    if s.simpleName = name then some s.qualifiedName
    else if s.memberTypes.contains name then some (Text.join [s.qualifiedName, ".", name])
    else typeInScopes name outer

def fieldInScopes (file : FileScope) (name : Name) : List TypeScope → Option FieldRef
  | [] => none
  | s :: outer =>
    match s.field? name with
    | some f => some ⟨⟨file, s :: outer⟩, s, f⟩
    | none => fieldInScopes file name outer

namespace Program

variable (p : Program)

def typeInFile (file : FileScope) (name : Name) : Option Name :=
  match FileScope.lookupLast name file.singleImports with
  | some imported => some imported
  | none => FileScope.lookupLast name file.topLevel

/-- The type that a simple name means by the other files: one of the package, one of a package
that is imported on demand, or an implied one. -/
def typeAround (file : FileScope) (name : Name) : Option Name :=
  let samePackage := Name.within file.package name
  if p.declares samePackage then some samePackage
  else
    let candidates := file.onDemandImports.map fun package => Text.join [package, ".", name]
    match candidates.find? fun c => p.declares c || p.known.contains c with
    | some c => some c
    | none =>
      if impliedTypes.contains name then some (Text.join [impliedPackage, ".", name]) else none

def simpleType? (site : Site) (name : Name) : Option Name :=
  match typeInScopes name site.scopes with
  | some t => some t
  | none =>
    match typeInFile site.file name with
    | some t => some t
    | none => p.typeAround site.file name

/-- The qualified name of the type that a name means. A simple name that nothing explains is one
of the package; a dotted name whose head nothing explains is qualified already. -/
def resolveType (site : Site) (name : Name) : Name :=
  let ofSimple (n : Name) := (p.simpleType? site n).getD (Name.within site.file.package n)
  match Text.splitFirst '.' name with
  | none => ofSimple name
  | some (head, rest) =>
    if rest.isEmpty then ofSimple head
    else
      match p.simpleType? site head with
      | some t => Text.join [t, ".", rest]
      | none => name

def field? (site : Site) (name : Name) : Option FieldRef :=
  match fieldInScopes site.file name site.scopes with
  | some f => some f
  | none =>
    let imported := do
      let owner ← FileScope.lookupLast name site.file.staticImports
      let t ← p.type? owner
      t.field? name
    match imported with
    | some f => some f
    | none => site.file.staticOnDemandImports.findSome? fun owner => do
      let t ← p.type? owner
      t.field? name

def fieldOf? (site : Site) (owner name : Name) : Option FieldRef := do
  let t ← p.type? (p.resolveType site owner)
  t.field? name

/-- The name of a type in use: resolved if it is a plain name, with brackets for an array. -/
def typeName (site : Site) : Java.TypeUse → Java.Written
  | .named name => name.map (p.resolveType site)
  | .other text => text
  | .array element n => (typeName site element).map fun t =>
    Text.join (t :: List.replicate n "[]")

def fieldTypeName (f : FieldRef) : Java.Written :=
  match f.field.type with
  | none => .ok f.owner.qualifiedName
  | some type => (p.typeName f.site type).map fun t =>
    Text.join (t :: List.replicate f.field.dimensions "[]")

end Program

end LookupGen
