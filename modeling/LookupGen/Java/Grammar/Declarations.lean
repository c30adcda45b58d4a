import LookupGen.Java.Grammar.Statements

/-!
# Declarations of types and members
-/

namespace LookupGen.Java

open Java.Parser

variable (r : Rules)

def parameter : Parser Unit := do
  let _ ← modifiers r
  let _ ← plainType r
  let receiver : Parser Unit := do
    let _ ← many (do
      let (t, next) ← peekTwo
      if isWord "this" t || !next.any (isSign ".") then refuse
      else
        let _ ← identifier
        sign ".")
    ignore (keyword "this")
  let spread : Parser Unit := do
    let _ ← many r.annotationUse
    let _ ← sign "..."
    let _ ← many r.annotationUse
    ignore (declarator r)
  firstOf [receiver, spread, ignore (variableName r)]

def parameters : Parser Unit := ignore (enclosed "(" (commaSeparated (parameter r)) ")")

def typesAfter (word : String) : Parser Unit :=
  ignore (optional (do
    let _ ← keyword word
    separated r.type (sign ",")))

def typeDeclarationRule (m : Modifiers) (line : Nat) : Parser TypeDeclaration := do
  let t ← peek
  let generics : Parser Unit := ignore (optional (typeParameters r))
  let body (kind : BodyKind) : Parser (List Member) := enclosed "\x7b" (r.members kind) "\x7d"
  match t.kind with
  | .sign "@interface" =>
    let _ ← tokenWhere fun _ => true
    let name ← identifier
    let members ← body .annotationType
    pure (.mk .annotationType m name line members)
  | .word "class" =>
    let _ ← identifier
    let name ← identifier
    generics
    let _ ← optional (do
      let _ ← keyword "extends"
      r.type)
    typesAfter r "implements"
    typesAfter r "permits"
    let members ← body .general
    pure (.mk .ordinary m name line members)
  | .word "interface" =>
    let _ ← identifier
    let name ← identifier
    generics
    typesAfter r "extends"
    typesAfter r "permits"
    let members ← body .interface
    pure (.mk .interface m name line members)
  | .word "record" =>
    let _ ← identifier
    let name ← identifier
    generics
    parameters r
    typesAfter r "implements"
    let members ← body .general
    pure (.mk .record m name line members)
  | .word "enum" =>
    let _ ← identifier
    let name ← identifier
    typesAfter r "implements"
    let constant : Parser Member := do
      let start ← peek
      let own ← modifiers r
      let constantName ← identifier
      let next ← peek
      if isSign "(" next then arguments r else pure ()
      let after ← peek
      if isSign "\x7b" after then classBody r else pure ()
      pure (.constant own constantName start.line)
    let _ ← sign "\x7b"
    let constants ← commaSeparated constant
    let _ ← optional (sign ",")
    let members ← optional (do
      let _ ← sign ";"
      r.members .general)
    let _ ← sign "\x7d"
    pure (.mk .enumeration m name line (constants ++ members.getD []))
  | _ => refuse

def throwsClause : Parser Unit := typesAfter r "throws"

def constructorCall : Parser Unit := do
  let direct : Parser Unit := do
    let _ ← optional r.typeArguments
    let _ ← orElse (keyword "this") (keyword "super")
    arguments r
    ignore (sign ";")
  let outer : Parser Unit := do
    let _ ← primary r (conditional r)
    let _ ← sign "."
    let _ ← optional r.typeArguments
    let _ ← keyword "super"
    arguments r
    ignore (sign ";")
  orElse direct outer

def constructorBody : Parser Unit := do
  let _ ← sign "\x7b"
  let _ ← optional (constructorCall r)
  let _ ← many r.statement
  ignore (sign "\x7d")

def methodRest (m : Modifiers) (line : Nat) : Parser Member := do
  let name ← identifier
  parameters r
  let _ ← optional (dimensions r)
  throwsClause r
  let t ← peek
  if isSign ";" t then ignore (sign ";") else r.block
  pure (.method .method m name line)

def constructorRest (m : Modifiers) (line : Nat) : Parser Member := do
  let name ← identifier
  parameters r
  throwsClause r
  constructorBody r
  pure (.method .constructor m name line)

def compactConstructorRest (m : Modifiers) (line : Nat) : Parser Member := do
  let name ← identifier
  r.block
  pure (.method .constructor m name line)

def elementRest (m : Modifiers) (line : Nat) : Parser Member := do
  let name ← identifier
  let _ ← sign "("
  let _ ← sign ")"
  let _ ← optional (dimensions r)
  let _ ← optional (do
    let _ ← keyword "default"
    r.elementValue)
  let _ ← sign ";"
  pure (.method .method m name line)

def fieldsRest (m : Modifiers) (type : TypeUse) : Parser Member := do
  let ds ← declarators r
  let _ ← sign ";"
  pure (.fields m type ds)

def typedMember (kind : BodyKind) (m : Modifiers) (line : Nat) : Parser Member := do
  let type ← plainType r
  let (_, next) ← peekTwo
  if next.any (isSign "(") then
    if kind = .annotationType then elementRest r m line else methodRest r m line
  else fieldsRest r m type

def modifiedMember (kind : BodyKind) : Parser Member := do
  let start ← peek
  let m ← modifiers r
  let (t, next) ← peekTwo
  if startsType t next then
    if isWord "record" t && kind = .annotationType then refuse
    else
      let d ← r.typeDeclaration m start.line
      pure (.type d)
  else if isSign "<" t && kind ≠ .annotationType then
    typeParameters r
    let _ ← many r.annotationUse
    let (u, after) ← peekTwo
    if isAnyWord u && after.any (isSign "(") && kind = .general then
      constructorRest r m start.line
    else
      let _ ← plainType r
      methodRest r m start.line
  else if isAnyWord t && next.any (isSign "(") && kind = .general then
    constructorRest r m start.line
  else if isAnyWord t && next.any (isSign "\x7b") && kind = .general then
    compactConstructorRest r m start.line
  else typedMember r kind m start.line

/-- A member of a type; a semicolon or an initialiser is none. -/
def member (kind : BodyKind) : Parser (Option Member) := do
  let (t, next) ← peekTwo
  if isSign ";" t then
    let _ ← sign ";"
    pure none
  else if isSign "\x7b" t && kind = .general then
    r.block
    pure none
  else if isWord "static" t && next.any (isSign "\x7b") && kind = .general then
    let _ ← identifier
    r.block
    pure none
  else
    let d ← modifiedMember r kind
    pure (some d)

def membersRule (kind : BodyKind) : Parser (List Member) := do
  let members ← many (member r kind)
  pure (members.filterMap id)

def looseMethod : Parser Unit := do
  let start ← peek
  let m ← modifiers r
  let _ ← optional (typeParameters r)
  let _ ← many r.annotationUse
  let _ ← plainType r
  ignore (methodRest r m start.line)

def topLevel : Parser (Option Item) :=
  orElse r.statement (do
    looseMethod r
    pure none)

def fileRule : Parser (List Item) := do
  let items ← many (topLevel r)
  let _ ← tokenWhere fun t => t.kind = .finish
  pure (items.filterMap id)

end LookupGen.Java
