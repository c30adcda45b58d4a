import LookupGen.Name
import LookupGen.Text.Quoted

/-!
# Declared elements

The view of a program on which the generation of lookup classes works: elements with their
annotations, and types with the fields declared directly in them.
-/

namespace LookupGen

/-- A value of an annotation element or of a constant field. A character is a text of one code
point. -/
inductive Value where
  | null
  | text (t : Text)
  | bool (b : Bool)
  | int (n : Int)
  | array (items : List Value)
  | annotated (name : Name) (values : List (Name × Value))
  deriving Inhabited

namespace Value

def bracketed : List Text → Text
  | [] => "()"
  | [item] => Text.join ["(", item, ",)"]
  | items => Text.join ["(", Text.joinWith ", " items, ")"]

mutual

/-- A value as it is shown inside another one. -/
def shown : Value → Text
  | null => "None"
  | text t => Text.quoted t
  | bool b => if b then "True" else "False"
  | int n => Text.ofInt n
  | array items => bracketed (shownItems items)
  | annotated name values =>
    Text.join ["AnnotationValue(name=", Text.quoted name, ", values=\x7b",
      Text.joinWith ", " (shownPairs values), "\x7d)"]

def shownItems : List Value → List Text
  | [] => []
  | v :: rest => shown v :: shownItems rest

def shownPairs : List (Name × Value) → List Text
  | [] => []
  | (name, v) :: rest => Text.join [Text.quoted name, ": ", shown v] :: shownPairs rest

end

/-- A value as text; a text is itself. -/
def toText : Value → Text
  | text t => t
  | v => shown v

def text? : Value → Option Text
  | text t => some t
  | _ => none

end Value

structure AnnotationData where
  name : Name
  values : List (Name × Value)

structure MissingValue where
  annotationName : Name
  element : Name
  deriving DecidableEq, Repr

def MissingValue.message (e : MissingValue) : Text :=
  Text.join ["@", e.annotationName, " is missing required element '", e.element, "'"]

def AnnotationData.value (a : AnnotationData) (element : Name) : Except MissingValue Value :=
  match a.values.lookup element with
  | some v => .ok v
  | none => .error ⟨a.name, element⟩

/-- The element of an annotation whose name may be left out where it is the only one. -/
def AnnotationData.mainElement : Name := "value"

inductive TypeKind where
  | ordinary
  | interface
  | enumeration
  | record
  | annotationType
  deriving DecidableEq, Repr

inductive Kind where
  | type (kind : TypeKind)
  | field
  | method
  | constructor
  | other (name : Text)
  deriving DecidableEq, Repr

namespace Kind

def named : List (Text × Kind) := [
  ("class", type .ordinary), ("interface", type .interface), ("enum", type .enumeration),
  ("record", type .record), ("annotation", type .annotationType), ("field", field),
  ("method", method), ("constructor", constructor)]

def ofName (name : Text) : Kind := (named.lookup name).getD (other name)

def toName : Kind → Text
  | type .ordinary => "class"
  | type .interface => "interface"
  | type .enumeration => "enum"
  | type .record => "record"
  | type .annotationType => "annotation"
  | field => "field"
  | method => "method"
  | constructor => "constructor"
  | other name => name

def isType : Kind → Bool
  | type _ => true
  | _ => false

end Kind

structure Field where
  name : Name
  type : Name
  constant : Option Value

/-- A declaration of a program. `origin` says where it stands. -/
structure Element where
  kind : Kind
  name : Name
  annotations : List AnnotationData
  nested : Bool
  fields : List Field
  origin : Option Text

namespace Element

def annotationNamed? (e : Element) (name : Name) : Option AnnotationData :=
  e.annotations.find? fun a => decide (a.name = name)

def annotatedWith (name : Name) (elements : List Element) : List Element :=
  elements.filter fun e => (e.annotationNamed? name).isSome

end Element

def stringType : Name := "java.lang.String"

end LookupGen
