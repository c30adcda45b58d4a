import LookupGen.Java.Grammar.Parser
import LookupGen.Java.Tree

/-!
# The recursive rules of the grammar

The rules by which the grammar refers to itself. Each part of the grammar is written against any
such rules, and the parts are tied together at the end.
-/

namespace LookupGen.Java

/-- An expression, and whether something can be assigned to it. -/
structure Operand where
  expr : Expr
  assignable : Bool

inductive BodyKind where
  | general
  | interface
  | annotationType
  deriving DecidableEq, Repr

/-- The rules that occur inside each other. -/
structure Rules where
  type : Parser TypeUse
  typeArguments : Parser Unit
  annotationUse : Parser AnnotationUse
  elementValue : Parser ElementValue
  expression : Parser Expr
  unary : Parser Operand
  arrayInitializer : Parser Unit
  pattern : Parser Unit
  block : Parser Unit
  /-- A statement; a declaration that stands in its place is given. -/
  statement : Parser (Option Item)
  typeDeclaration : Modifiers → Nat → Parser TypeDeclaration
  members : BodyKind → Parser (List Member)

def Rules.refusing : Rules where
  type := Parser.refuse
  typeArguments := Parser.refuse
  annotationUse := Parser.refuse
  elementValue := Parser.refuse
  expression := Parser.refuse
  unary := Parser.refuse
  arrayInitializer := Parser.refuse
  pattern := Parser.refuse
  block := Parser.refuse
  statement := Parser.refuse
  typeDeclaration := fun _ _ => Parser.refuse
  members := fun _ => Parser.refuse

end LookupGen.Java
