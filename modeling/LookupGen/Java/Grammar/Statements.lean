import LookupGen.Java.Grammar.Expressions

/-!
# Statements

Statements leave nothing behind, except that a declaration in the place of a statement is given
on, since declarations at the top of a file stand there.
-/

namespace LookupGen.Java

open Java.Parser

variable (r : Rules)

def blockRule : Parser Unit := ignore (enclosed "\x7b" (many r.statement) "\x7d")

def variableName : Parser (Token × Name × Nat) := do
  let t ← peek
  let name ← identifier
  let n ← optional (dimensions r)
  pure (t, name, n.getD 0)

def declarator : Parser Declarator := do
  let (t, name, n) ← variableName r
  let initializer ← optional (do
    let _ ← sign "="
    variableInitializer r)
  pure ⟨name, n, initializer, t.line⟩

def declarators : Parser (List Declarator) := separated (declarator r) (sign ",")

def localVariables : Parser Unit := do
  let _ ← modifiers r
  let _ ← plainType r
  let _ ← declarators r
  ignore (sign ";")

def condition : Parser Unit := ignore (enclosed "(" r.expression ")")

def forRest : Parser Unit := do
  let each : Parser Unit := do
    let _ ← modifiers r
    let _ ← plainType r
    let _ ← variableName r
    let _ ← sign ":"
    ignore r.expression
  let counted : Parser Unit := do
    orElse (localVariables r) (do
      let _ ← commaSeparated r.expression
      ignore (sign ";"))
    let _ ← optional r.expression
    let _ ← sign ";"
    ignore (commaSeparated r.expression)
  let _ ← enclosed "(" (orElse each counted) ")"
  ignore r.statement

def catchClause : Parser Unit := do
  let _ ← keyword "catch"
  let _ ← enclosed "(" (do
    let _ ← modifiers r
    let _ ← separated (plainType r) (sign "|")
    variableName r) ")"
  r.block

def finallyClause : Parser Unit := do
  let _ ← keyword "finally"
  r.block

def resource : Parser Unit := do
  let declared : Parser Unit := do
    let _ ← modifiers r
    let _ ← plainType r
    let _ ← variableName r
    let _ ← sign "="
    ignore r.expression
  orElse declared (ignore r.unary)

def tryRest : Parser Unit := do
  let t ← peek
  if isSign "(" t then
    let _ ← enclosed "(" (do
      let _ ← separated (resource r) (sign ";")
      optional (sign ";")) ")"
    r.block
    let _ ← many (catchClause r)
    ignore (optional (finallyClause r))
  else
    r.block
    let handlers ← many (catchClause r)
    if handlers.isEmpty then finallyClause r else ignore (optional (finallyClause r))

def keywordStatements : List (String × Parser Unit) := [
  ("if", do
    condition r
    let _ ← r.statement
    ignore (optional (do
      let _ ← keyword "else"
      r.statement))),
  ("while", do
    condition r
    ignore r.statement),
  ("do", do
    let _ ← r.statement
    let _ ← keyword "while"
    condition r
    ignore (sign ";")),
  ("for", forRest r),
  ("try", tryRest r),
  ("return", do
    let _ ← optional r.expression
    ignore (sign ";")),
  ("throw", do
    let _ ← r.expression
    ignore (sign ";")),
  ("break", do
    let _ ← optional identifier
    ignore (sign ";")),
  ("continue", do
    let _ ← optional identifier
    ignore (sign ";")),
  ("assert", do
    let _ ← r.expression
    let _ ← optional (do
      let _ ← sign ":"
      r.expression)
    ignore (sign ";"))]

def expressionStatement : Parser Unit := do
  let _ ← r.expression
  ignore (sign ";")

def wordStatement (s : String) (next : Option Token) : Parser Unit :=
  match (keywordStatements r).lookup s with
  | some rest => do
    let _ ← identifier
    rest
  | none =>
    if s = "synchronized" ∧ next.any (isSign "(") then do
      let _ ← identifier
      condition r
      r.block
    else if s = "switch" then
      orElse (do
        switchExpression r (conditional r)
        let t ← peek
        if ["." , "[", "::", "="].any (isSign · t) then refuse else pure ())
        (expressionStatement r)
    else if s = "yield" then
      firstOf [do
        let _ ← identifier
        let _ ← r.expression
        ignore (sign ";"),
        expressionStatement r, localVariables r]
    else if next.any (isSign ":") then do
      let _ ← identifier
      let _ ← sign ":"
      ignore r.statement
    else orElse (localVariables r) (expressionStatement r)

def moduleDirective : Parser Unit := do
  let (t, _) ← peekTwo
  if ! (["requires", "exports", "opens", "uses", "provides"].any (isWord · t)) then refuse
  else
    let _ ← identifier
    let _ ← many (do
      let (u, next) ← peekTwo
      if ["static", "transitive"].any (isWord · u) && next.any isAnyWord then identifier
      else refuse)
    let _ ← qualifiedName
    let _ ← optional (do
      let _ ← orElse (keyword "to") (keyword "with")
      separated qualifiedName (sign ","))
    ignore (sign ";")

def moduleDeclaration : Parser Unit := do
  let _ ← many r.annotationUse
  let _ ← optional (do
    let (t, next) ← peekTwo
    if isWord "open" t && next.any (isWord "module") then identifier else refuse)
  let _ ← keyword "module"
  let _ ← qualifiedName
  ignore (enclosed "\x7b" (many moduleDirective) "\x7d")

def packageDeclaration : Parser Item := do
  let _ ← many r.annotationUse
  let _ ← keyword "package"
  let name ← qualifiedName
  let _ ← sign ";"
  pure (.package name)

def importDeclaration : Parser Item := do
  let _ ← keyword "import"
  let t ← peek
  let isStatic := isWord "static" t
  if isStatic then ignore identifier else pure ()
  let name ← qualifiedName
  let onDemand ← optional (do
    let _ ← sign "."
    sign "*")
  let _ ← sign ";"
  pure (.import (match isStatic, onDemand.isSome with
    | false, false => .single
    | false, true => .onDemand
    | true, false => .staticSingle
    | true, true => .staticOnDemand) name)

/-- Whether a type declaration stands after modifiers. A record is told by the name and the
parameters after the word. -/
def startsType (t : Token) (next : Option Token) : Bool :=
  isSign "@interface" t || ["class", "interface", "enum"].any (isWord · t) ||
    (isWord "record" t && next.any isAnyWord)

def declaredType : Parser TypeDeclaration := do
  let start ← peek
  let m ← modifiers r
  let (t, next) ← peekTwo
  if startsType t next then r.typeDeclaration m start.line else refuse

/-- A statement; a declaration in its place is given. -/
def statementRule : Parser (Option Item) := do
  let nothing (p : Parser Unit) : Parser (Option Item) := do
    p
    pure none
  let (t, next) ← peekTwo
  let declaration : Parser (Option Item) := firstOf [
    do
      let d ← declaredType r
      pure (some (.type d)),
    do
      let i ← packageDeclaration r
      pure (some i),
    nothing (moduleDeclaration r)]
  match t.kind with
  | .sign ";" => nothing (ignore (sign ";"))
  | .sign "\x7b" => nothing r.block
  | .sign "@" => firstOf [declaration, nothing (localVariables r)]
  | .sign "@interface" => declaration
  | .word s =>
    if s = "import" then do
      let i ← importDeclaration
      pure (some i)
    else if s = "synchronized" ∧ next.any (isSign "(") then nothing (wordStatement r s next)
    else if ["class", "interface", "enum", "package"].contains s then declaration
    else if modifierWords.contains s then firstOf [declaration, nothing (localVariables r)]
    else if ["record", "sealed", "non", "module", "open"].contains s then
      firstOf [declaration, nothing (wordStatement r s next)]
    else nothing (wordStatement r s next)
  | _ => nothing (expressionStatement r)

end LookupGen.Java
