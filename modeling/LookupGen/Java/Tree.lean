import LookupGen.Element
import LookupGen.Java.Glyph

/-!
# Declarations of a source file

What a source file declares, as far as constants and annotations depend on it. Bodies of methods
and initialisers leave nothing behind. Names of types and packages are kept as they are written,
blanks and comments inside them included.
-/

namespace LookupGen.Java

inductive UnaryOp where
  | plus
  | minus
  | complement
  | negation
  deriving DecidableEq, Repr

/-- An expression. Literals are kept as written. What no constant is made of is `other`. -/
inductive Expr where
  | string (literal : Written)
  | character (literal : Written)
  | integer (literal : Written)
  | boolean (b : Bool)
  | paren (inner : Expr)
  | plus (left right : Expr)
  | unary (op : UnaryOp) (operand : Expr)
  | name (n : Name)
  | field (owner : Written) (n : Name)
  | other

mutual

inductive ElementValue where
  | expression (e : Expr)
  | array (items : List ElementValue)
  | annotated (a : AnnotationUse)

/-- An annotation as written. A value without a name is that of the main element. -/
inductive AnnotationUse where
  | mk (name : Written) (values : List (Name × ElementValue))

end

structure Modifiers where
  annotations : List AnnotationUse
  isFinal : Bool

def Modifiers.none : Modifiers := ⟨[], false⟩

/-- A type as written. Names can be resolved; primitive and parameterised types are `other`. -/
inductive TypeUse where
  | named (name : Written)
  | other (text : Written)
  | array (element : TypeUse) (dimensions : Nat)

structure Declarator where
  name : Name
  dimensions : Nat
  initializer : Option Expr
  line : Nat

mutual

/-- A member of a type. A constructor that is declared without a name takes that of its type. -/
inductive Member where
  | fields (modifiers : Modifiers) (type : TypeUse) (declarators : List Declarator)
  | constant (modifiers : Modifiers) (name : Name) (line : Nat)
  | method (kind : Kind) (modifiers : Modifiers) (name : Name) (line : Nat)
  | type (declaration : TypeDeclaration)

/-- A declared type; `line` is where it starts, modifiers included. -/
inductive TypeDeclaration where
  | mk (kind : TypeKind) (modifiers : Modifiers) (name : Name) (line : Nat)
      (members : List Member)

end

inductive ImportForm where
  | single
  | onDemand
  | staticSingle
  | staticOnDemand
  deriving DecidableEq, Repr

inductive Item where
  | package (name : Written)
  | «import» (form : ImportForm) (name : Written)
  | type (declaration : TypeDeclaration)

end LookupGen.Java
