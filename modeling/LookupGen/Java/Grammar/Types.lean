import LookupGen.Java.Grammar.Rules

/-!
# Types, annotations and modifiers
-/

namespace LookupGen.Java

open Java.Parser

variable (r : Rules)

def primitiveWords : List String :=
  ["boolean", "byte", "char", "short", "int", "long", "float", "double", "void"]

def isPrimitive (t : Token) : Bool := match t.kind with
  | .word s => primitiveWords.contains s
  | _ => false

def afterTypeWords : List String := ["class", "this", "super", "new"]

/-- Pairs of brackets, annotations before them included; their number counts every opening
bracket in the text. -/
def dimensions : Parser Nat := do
  let one : Parser Unit := do
    let _ ← many r.annotationUse
    let _ ← sign "["
    ignore (sign "]")
  let (_, span) ← withSpan (do one; many one)
  pure (span.countP (Glyph.is '['))

def typeSegment : Parser Bool := do
  let _ ← tokenWhere fun t => isAnyWord t && !isPrimitive t
  let arguments ← optional (do
    let t ← peek
    if isSign "<" t then r.typeArguments else refuse)
  pure arguments.isSome

def typeSegmentAfterDot : Parser Bool := do
  let _ ← sign "."
  let _ ← many r.annotationUse
  let t ← peek
  if afterTypeWords.any (isWord · t) then refuse else typeSegment r

/-- A type without brackets. A name whose last segment has type arguments is not resolved. -/
def simpleType : Parser TypeUse := do
  let t ← peek
  if isPrimitive t then
    let _ ← identifier
    pure (.other (Glyph.text t.glyphs))
  else
    let (parameterised, span) ← withSpan (do
      let head ← typeSegment r
      iterate (fun _ => typeSegmentAfterDot r) head)
    pure (if parameterised then .other (Glyph.text span) else .named (Glyph.text span))

def plainType : Parser TypeUse := do
  let element ← simpleType r
  match ← optional (dimensions r) with
  | some n => pure (.array element n)
  | none => pure element

def typeRule : Parser TypeUse := do
  let _ ← many r.annotationUse
  plainType r

def wildcard : Parser Unit := do
  let _ ← many r.annotationUse
  let _ ← sign "?"
  ignore (optional (do
    let _ ← orElse (keyword "extends") (keyword "super")
    r.type))

def typeArgumentsRule : Parser Unit :=
  ignore (enclosed "<" (commaSeparated (orElse (wildcard r) (ignore r.type))) ">")

def typeParameters : Parser Unit := do
  let parameter : Parser Unit := do
    let _ ← many r.annotationUse
    let _ ← identifier
    ignore (optional (do
      let _ ← keyword "extends"
      separated r.type (sign "&")))
  ignore (enclosed "<" (separated parameter (sign ",")) ">")

def elementValueRule : Parser ElementValue := do
  let t ← peek
  if isSign "@" t then
    let a ← r.annotationUse
    pure (.annotated a)
  else if isSign "\x7b" t then
    let items ← enclosed "\x7b" (do
      let items ← commaSeparated r.elementValue
      let _ ← optional (sign ",")
      pure items) "\x7d"
    pure (.array items)
  else
    let e ← r.expression
    pure (.expression e)

def elementPair : Parser (Name × ElementValue) := do
  let name ← identifier
  let _ ← sign "="
  let v ← r.elementValue
  pure (name, v)

def annotationArguments : Parser (List (Name × ElementValue)) :=
  orElse (enclosed "(" (commaSeparated (elementPair r)) ")")
    (enclosed "(" (do
      let v ← r.elementValue
      pure [(AnnotationData.mainElement, v)]) ")")

def annotationRule : Parser AnnotationUse := do
  let _ ← sign "@"
  let name ← qualifiedName
  let t ← peek
  if isSign "(" t then
    let values ← annotationArguments r
    pure (.mk name values)
  else pure (.mk name [])

def modifierWords : List String := [
  "public", "protected", "private", "abstract", "static", "final", "strictfp", "default",
  "synchronized", "native", "transient", "volatile"]

def nonSealed : Parser Unit := do
  let _ ← keyword "non"
  let _ ← tokenWhere fun t => isSign "-" t && t.isJoined
  ignore (tokenWhere fun t => isWord "sealed" t && t.isJoined)

def modifier : Parser (Option AnnotationUse × Bool) := do
  let (t, next) ← peekTwo
  match t.kind with
  | .sign "@" =>
    let a ← r.annotationUse
    pure (some a, false)
  | .word s =>
    if modifierWords.contains s then
      let _ ← identifier
      pure (none, s == "final")
    else if s = "sealed" ∧ next.any (fun u => isAnyWord u || isSign "@" u) then
      let _ ← identifier
      pure (none, false)
    else
      nonSealed
      pure (none, false)
  | _ => refuse

def modifiers : Parser Modifiers := do
  let all ← many (modifier r)
  pure ⟨all.filterMap (·.1), all.any (·.2)⟩

end LookupGen.Java
