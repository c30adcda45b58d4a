import LookupGen.Java.Grammar.Types

/-!
# Expressions

All of an expression is read, but only what can make up a constant is kept: literals, parentheses,
unary operators, additions and names. Anything else is `Expr.other`.
-/

namespace LookupGen.Java

open Java.Parser

variable (r : Rules)

def otherOperand : Operand := ⟨.other, false⟩

def expressionWords : List String :=
  ["new", "this", "super", "switch", "true", "false", "null", "instanceof"]

def arguments : Parser Unit := ignore (enclosed "(" (commaSeparated r.expression) ")")

def variableInitializer : Parser Expr := do
  let t ← peek
  if isSign "\x7b" t then
    r.arrayInitializer
    pure .other
  else r.expression

def arrayInitializerRule : Parser Unit :=
  ignore (enclosed "\x7b" (do
    let _ ← commaSeparated (variableInitializer r)
    optional (sign ",")) "\x7d")

def classBody : Parser Unit := ignore (enclosed "\x7b" (r.members .general) "\x7d")

def creationRest : Parser Unit := do
  let t ← peek
  if isSign "(" t then
    arguments r
    let next ← peek
    if isSign "\x7b" next then classBody r else pure ()
  else
    let sizes ← many (do
      let _ ← many r.annotationUse
      ignore (enclosed "[" r.expression "]"))
    let empty ← optional (dimensions r)
    let next ← peek
    if isSign "\x7b" next && empty.isSome then r.arrayInitializer
    else if sizes.isEmpty then refuse else pure ()

def creation : Parser Unit := do
  let _ ← keyword "new"
  let _ ← many r.annotationUse
  let _ ← optional r.typeArguments
  let _ ← many r.annotationUse
  let _ ← simpleType r
  creationRest r

def methodReferenceRest : Parser Unit := do
  let _ ← sign "::"
  let _ ← optional r.typeArguments
  ignore identifier

def typeExpression : Parser Unit := do
  let _ ← plainType r
  let t ← peek
  if isSign "::" t then methodReferenceRest r
  else
    let _ ← sign "."
    ignore (keyword "class")

def patternRule : Parser Unit := do
  let _ ← modifiers r
  let _ ← plainType r
  let t ← peek
  if isSign "(" t then
    let _ ← enclosed "(" (commaSeparated r.pattern) ")"
    ignore (optional identifier)
  else ignore identifier

/-- The constants of a branch. No lambda is among them, since an arrow ends the label. -/
def caseOperand (conditional : Parser Operand) : Parser Unit := do
  let _ ← separated conditional (sign ",")
  let t ← peek
  if isSign ":" t || isSign "->" t || isWord "when" t then pure () else refuse

def switchLabel (conditional : Parser Operand) : Parser Unit := do
  let (t, next) ← peekTwo
  if isWord "default" t && next.any (fun u => isSign ":" u || isSign "->" u) then
    ignore identifier
  else
    let _ ← keyword "case"
    orElse (caseOperand conditional) (ignore r.pattern)
    ignore (optional (do
      let _ ← keyword "when"
      conditional))

def arrowBranch : Parser Unit := do
  let _ ← sign "->"
  let t ← peek
  if isSign "\x7b" t then r.block
  else
    let _ ← optional (keyword "throw")
    let _ ← r.expression
    ignore (sign ";")

/-- The branches between the braces of a switch: all with arrows, or all with colons. -/
def switchBlock (conditional : Parser Operand) : Parser Unit := do
  let arrows : Parser Unit := ignore (many (do switchLabel r conditional; arrowBranch r))
  let group : Parser Unit := do
    let label : Parser Unit := do
      switchLabel r conditional
      ignore (sign ":")
    let statement : Parser Unit := do
      let (t, next) ← peekTwo
      if isWord "case" t || (isWord "default" t && next.any (isSign ":")) then refuse
      else ignore r.statement
    label
    let _ ← many label
    ignore (many statement)
  orElse (enclosed "\x7b" arrows "\x7d") (ignore (enclosed "\x7b" (many group) "\x7d"))

def switchExpression (conditional : Parser Operand) : Parser Unit := do
  let _ ← keyword "switch"
  let _ ← enclosed "(" r.expression ")"
  switchBlock r conditional

/-- A member of an operand: a call, a field, an inner object, or a template. `owner` is the text
of the operand. -/
def memberAfterDot (owner : List Glyph) : Parser Operand := do
  let _ ← sign "."
  let (t, next) ← peekTwo
  match t.kind with
  | .string =>
    let _ ← tokenWhere fun _ => true
    pure otherOperand
  | .sign "<" =>
    r.typeArguments
    let _ ← identifier
    arguments r
    pure otherOperand
  | .word "new" =>
    creation r
    pure otherOperand
  | .word "super" =>
    let _ ← identifier
    let after ← peek
    if isSign "::" after then
      methodReferenceRest r
      pure otherOperand
    else
      let _ ← sign "."
      let _ ← optional r.typeArguments
      let name ← identifier
      let last ← peek
      if isSign "(" last then
        arguments r
        pure otherOperand
      else pure ⟨.field (Glyph.text owner) name, true⟩
  | .word _ =>
    let name ← identifier
    if next.any (isSign "(") then
      arguments r
      pure otherOperand
    else pure ⟨.field (Glyph.text owner) name, true⟩
  | _ => refuse

def suffix (owner : List Glyph) : Parser Operand := do
  let t ← peek
  match t.kind with
  | .sign "." => memberAfterDot r owner
  | .sign "[" =>
    let _ ← enclosed "[" r.expression "]"
    pure ⟨.other, true⟩
  | .sign "::" =>
    methodReferenceRest r
    pure otherOperand
  | _ => refuse

def operandHead (conditional : Parser Operand) : Parser Operand := do
  let (t, next) ← peekTwo
  let literal (e : Written → Expr) : Parser Operand := do
    let _ ← tokenWhere fun _ => true
    pure ⟨e (Glyph.text t.glyphs), false⟩
  match t.kind with
  | .string => literal .string
  | .character => literal .character
  | .integer => literal .integer
  | .floating => literal fun _ => .other
  | .sign "(" =>
    let e ← enclosed "(" r.expression ")"
    pure ⟨.paren e, false⟩
  | .word "true" => literal fun _ => .boolean true
  | .word "false" => literal fun _ => .boolean false
  | .word "null" => literal fun _ => .other
  | .word "this" => literal fun _ => .other
  | .word "super" =>
    if next.any (fun u => isSign "." u || isSign "::" u) then literal fun _ => .other else refuse
  | .word "new" =>
    creation r
    pure otherOperand
  | .word "switch" =>
    switchExpression r conditional
    pure otherOperand
  | .word "instanceof" => refuse
  | .word s =>
    if primitiveWords.contains s then refuse
    else
      let name ← identifier
      if next.any (isSign "(") then
        arguments r
        pure otherOperand
      else pure ⟨.name name, true⟩
  | _ => refuse

/-- An operand with all that follows it. The text of what is read so far is the owner of the next
member. -/
def primary (conditional : Parser Operand) : Parser Operand := do
  let typed : Parser Operand := do
    let t ← peek
    if isAnyWord t && !expressionWords.any (isWord · t) then
      typeExpression r
      pure otherOperand
    else refuse
  let (head, span) ← withSpan (orElse typed (operandHead r conditional))
  let step : Operand × List Glyph → Parser (Operand × List Glyph) := fun (_, before) => do
    let gap := (← peek).gap
    let (o, more) ← withSpan (suffix r before)
    pure (o, before ++ gap ++ more)
  let (o, _) ← iterate step (head, span)
  pure o

def lambdaParameters : Parser Unit := do
  let parameter : Parser Unit := do
    let _ ← modifiers r
    let _ ← plainType r
    let _ ← optional (sign "...")
    let _ ← identifier
    ignore (optional (dimensions r))
  orElse (ignore (enclosed "(" (commaSeparated identifier) ")"))
    (ignore (enclosed "(" (commaSeparated parameter) ")"))

def lambda : Parser Unit := do
  let t ← peek
  if isSign "(" t then lambdaParameters r else ignore identifier
  let _ ← sign "->"
  let next ← peek
  if isSign "\x7b" next then r.block else ignore r.expression

/-- A cast. In front of a sign that could also be binary, a single word in parentheses is no type,
but a dotted name is one. -/
def cast : Parser Unit := do
  let name : Parser Token := tokenWhere fun t => isAnyWord t && !isPrimitive t
  let oneWord ← optional (lookahead (enclosed "(" name ")"))
  let _ ← enclosed "(" (separated r.type (sign "&")) ")"
  let t ← peek
  let ambiguous := ["+", "-", "++", "--"].any (isSign · t)
  if oneWord.isSome && ambiguous then refuse
  else orElse (lambda r) (ignore r.unary)

def unaryOp : Parser UnaryOp := do
  let t ← peek
  let op ← match t.kind with
    | .sign "+" => pure UnaryOp.plus
    | .sign "-" => pure UnaryOp.minus
    | .sign "~" => pure UnaryOp.complement
    | .sign "!" => pure UnaryOp.negation
    | _ => refuse
  let _ ← tokenWhere fun _ => true
  pure op

def unaryRule (conditional : Parser Operand) : Parser Operand := do
  let t ← peek
  match t.kind with
  | .sign "++" | .sign "--" =>
    let _ ← tokenWhere fun _ => true
    let _ ← r.unary
    pure otherOperand
  | .sign "+" | .sign "-" | .sign "~" | .sign "!" =>
    let op ← unaryOp
    let o ← r.unary
    pure ⟨.unary op o.expr, false⟩
  | _ =>
    let postfixed : Parser Operand := do
      let o ← primary r conditional
      let marks ← many (orElse (sign "++") (sign "--"))
      pure (if marks.isEmpty then o else otherOperand)
    if isSign "(" t then orElse (do cast r; pure otherOperand) postfixed else postfixed

/-- The signs `>` that directly follow one another, at most three, with the equals sign or the
comparison after them. -/
def angles : Parser String := do
  let _ ← sign ">"
  let joined (s : String) : Parser Token := tokenWhere fun t => isSign s t && t.isJoined
  let second ← optional (joined ">")
  let third ← if second.isSome then optional (joined ">") else pure none
  let equals ← optional (joined "=")
  pure (">" ++ (if second.isSome then ">" else "") ++ (if third.isSome then ">" else "") ++
    (if equals.isSome then "=" else ""))

def operatorSign : Parser String := do
  let t ← peek
  match t.kind with
  | .sign ">" => angles
  | .sign s =>
    let _ ← tokenWhere fun _ => true
    pure s
  | _ => refuse

/-- The binary operators, those that bind most first. -/
def binaryLevels : List (List String) := [
  ["*", "/", "%"], ["+", "-"], ["<<", ">>", ">>>"], ["<", "<=", ">", ">="], ["==", "!="], ["&"],
  ["^"], ["|"], ["&&"], ["||"]]

def typeTest : Parser Unit := do
  let _ ← keyword "instanceof"
  let _ ← optional (keyword "final")
  orElse (do
    let _ ← r.type
    let t ← peek
    if isSign "(" t then refuse
    else ignore (optional (do
      let u ← peek
      if isWord "instanceof" u then refuse else identifier)))
    (ignore r.pattern)

def binaryStep (signs : List String) (next : Parser Operand) (left : Operand) :
    Parser Operand := do
  let t ← peek
  if isWord "instanceof" t && signs.contains "<" then
    typeTest r
    pure otherOperand
  else
    let s ← lookahead operatorSign
    if signs.contains s then
      let _ ← operatorSign
      let right ← next
      pure ⟨if s = "+" then .plus left.expr right.expr else .other, false⟩
    else refuse

/-- Binary expressions of some levels, the one that binds least first. -/
def binary (unary : Parser Operand) : List (List String) → Parser Operand
  | [] => unary
  | signs :: tighter => do
    let next := binary unary tighter
    let head ← next
    iterate (binaryStep r signs next) head

def assignmentSigns : List String :=
  ["=", "+=", "-=", "*=", "/=", "&=", "|=", "^=", "%=", "<<=", ">>=", ">>>="]

def conditionalFrom (unary : Parser Operand) : Parser Operand := do
  let head ← binary r unary binaryLevels.reverse
  let t ← peek
  if isSign "?" t then
    let _ ← sign "?"
    let _ ← r.expression
    let _ ← sign ":"
    let _ ← r.expression
    pure otherOperand
  else pure head

def conditional : Parser Operand := conditionalFrom r r.unary

def expressionRule : Parser Expr := do
  let (t, next) ← peekTwo
  let startsLambda := isSign "(" t || (isAnyWord t && next.any (isSign "->"))
  let plain : Parser Expr := do
    let left ← conditional r
    let assigned ← optional (do
      let s ← lookahead operatorSign
      if assignmentSigns.contains s && left.assignable then
        let _ ← operatorSign
        r.expression
      else refuse)
    pure (if assigned.isSome then .other else left.expr)
  if startsLambda then orElse (do lambda r; pure .other) plain else plain

end LookupGen.Java
