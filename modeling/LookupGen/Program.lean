import LookupGen.Java.Tree

/-!
# Programs

The types that some source files declare, with all that the meaning of a name depends on: the
package and the imports of the file, and the types around the place where the name stands.
-/

namespace LookupGen

open Java (Expr TypeUse Modifiers Member TypeDeclaration Item)

/-- What the top of a file says about names. Of several declarations of one name the last one
counts. -/
structure FileScope where
  path : Text
  package : Name
  singleImports : List (Name × Name)
  onDemandImports : List Name
  staticImports : List (Name × Name)
  staticOnDemandImports : List Name
  topLevel : List (Name × Name)

namespace FileScope

def ofPath (path : Text) : FileScope := ⟨path, [], [], [], [], [], []⟩

def lookupLast (key : Name) (pairs : List (Name × Name)) : Option Name :=
  (pairs.reverse).lookup key

def addImport (f : FileScope) (form : Java.ImportForm) (name : Name) : FileScope :=
  match form with
  | .single => { f with singleImports := f.singleImports ++ [(Name.simple name, name)] }
  | .onDemand => { f with onDemandImports := f.onDemandImports ++ [name] }
  | .staticSingle =>
    { f with staticImports := f.staticImports ++ [(Name.simple name, Name.package name)] }
  | .staticOnDemand => { f with staticOnDemandImports := f.staticOnDemandImports ++ [name] }

end FileScope

/-- A field as declared. A constant of an enumeration has no type of its own. -/
structure FieldDecl where
  name : Name
  type : Option TypeUse
  dimensions : Nat
  isFinal : Bool
  initializer : Option Expr
  modifiers : Modifiers
  line : Nat

/-- The body of a type as a scope for names. `id` tells the bodies of a program apart. -/
structure TypeScope where
  id : Nat
  simpleName : Name
  qualifiedName : Name
  memberTypes : List Name
  fields : List FieldDecl

namespace TypeScope

def field? (s : TypeScope) (name : Name) : Option FieldDecl :=
  s.fields.find? fun f => decide (f.name = name)

end TypeScope

structure MethodDecl where
  kind : Kind
  modifiers : Modifiers
  name : Name
  line : Nat

/-- A declared type with the scopes around it, the innermost first. -/
structure DeclaredType where
  file : FileScope
  scope : TypeScope
  enclosing : List TypeScope
  kind : TypeKind
  modifiers : Modifiers
  line : Nat
  methods : List MethodDecl

namespace DeclaredType

def name (t : DeclaredType) : Name := t.scope.qualifiedName

/-- The fields with one added. A field of the same name is replaced where it stands. -/
def putField (f : FieldDecl) : List FieldDecl → List FieldDecl
  | [] => [f]
  | g :: rest => if g.name = f.name then f :: rest else g :: putField f rest

/-- The fields that a member declares. `final` says that all fields of the type are final. -/
def memberFields (final : Bool) : Member → List FieldDecl
  | .fields m type ds => ds.map fun d =>
    ⟨d.name, some type, d.dimensions, final || m.isFinal, d.initializer, m, d.line⟩
  | .constant m name line => [⟨name, none, 0, true, none, m, line⟩]
  | _ => []

/-- The fields of a type: one for each name, in the order of the first declaration of the name, as
the last one declares it. -/
def fieldsOf (kind : TypeKind) (members : List Member) : List FieldDecl :=
  let final := decide (kind = .interface ∨ kind = .annotationType)
  (members.flatMap (memberFields final)).foldl (fun fields f => putField f fields) []

def memberTypesOf (members : List Member) : List Name :=
  members.filterMap fun
    | .type (.mk _ _ name _ _) => some name
    | _ => none

def methodsOf (members : List Member) : List MethodDecl :=
  members.filterMap fun
    | .method kind m name line => some ⟨kind, m, name, line⟩
    | _ => none

def scopeOf (id : Nat) (qualifiedName : Name) : TypeDeclaration → TypeScope
  | .mk kind _ name _ members =>
    ⟨id, name, qualifiedName, memberTypesOf members, fieldsOf kind members⟩

mutual

/-- A declaration and the declarations inside it, the outer before the inner ones. They are
numbered from `id` on. -/
def ofDeclaration (file : FileScope) (enclosing : List TypeScope) (id : Nat)
    (qualifiedName : Name) : TypeDeclaration → List DeclaredType
  | .mk kind m name line members =>
    let scope := scopeOf id qualifiedName (.mk kind m name line members)
    ⟨file, scope, enclosing, kind, m, line, methodsOf members⟩ ::
      ofMembers file (scope :: enclosing) (id + 1) qualifiedName members

def ofMembers (file : FileScope) (enclosing : List TypeScope) (id : Nat) (outer : Name) :
    List Member → List DeclaredType
  | [] => []
  | member :: rest =>
    let own := ofMember file enclosing id outer member
    own ++ ofMembers file enclosing (id + own.length) outer rest

def ofMember (file : FileScope) (enclosing : List TypeScope) (id : Nat) (outer : Name) :
    Member → List DeclaredType
  | .type (.mk kind m name line members) =>
    ofDeclaration file enclosing id (Text.join [outer, ".", name]) (.mk kind m name line members)
  | _ => []

end

end DeclaredType

/-- The types of some source files in the order in which they were read, and the names of types
that are known without a source. -/
structure Program where
  types : List DeclaredType
  known : List Name

namespace Program

/-- The type of a qualified name; the last one if several have it. -/
def type? (p : Program) (name : Name) : Option DeclaredType :=
  p.types.reverse.find? fun t => decide (t.name = name)

def declares (p : Program) (name : Name) : Bool := (p.type? name).isSome

/-- What the top of a file says, and the qualified names of its types. A package declaration
counts for the types after it; in the scope that results it is the last one. -/
def fileScope (path : Text) (items : List Item) :
    Except Utf8.DecodeError (FileScope × List (Name × TypeDeclaration)) :=
  items.foldlM (fun (f, types) item => do
    match item with
    | .package name =>
      let name ← name
      pure ({ f with package := name }, types)
    | .import form name =>
      let name ← name
      pure (f.addImport form name, types)
    | .type (.mk kind m name line members) =>
      let qualified := Name.within f.package name
      pure ({ f with topLevel := f.topLevel ++ [(name, qualified)] },
        types ++ [(qualified, .mk kind m name line members)]))
    (FileScope.ofPath path, [])

def fileTypes (file : FileScope) (id : Nat) : List (Name × TypeDeclaration) → List DeclaredType
  | [] => []
  | (qualified, d) :: rest =>
    let own := DeclaredType.ofDeclaration file [] id qualified d
    own ++ fileTypes file (id + own.length) rest

def addFile (p : Program) (path : Text) (items : List Item) : Except Utf8.DecodeError Program := do
  let (file, types) ← fileScope path items
  pure { p with types := p.types ++ fileTypes file p.types.length types }

end Program

end LookupGen
