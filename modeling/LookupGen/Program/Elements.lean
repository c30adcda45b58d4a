import LookupGen.Program.Evaluate
import LookupGen.Table

/-!
# Elements of a program

The declarations of a program as elements: each type with its fields, the annotated fields of the
type before it and the annotated methods and constructors after it.
-/

namespace LookupGen

open Java (AnnotationUse ElementValue Modifiers)

namespace Program

variable (p : Program)

mutual

/-- The value that an annotation gives to an element; what is not constant is left out. -/
def elementValue (site : Site) : ElementValue → EvalM (Option Value)
  | .expression e => do
    let c ← p.constantAt site e
    pure (c.map Constant.value)
  | .array items => do
    let values ← elementValues site items
    pure (some (.array values))
  | .annotated (.mk name values) => do
    let a ← annotationData site (.mk name values)
    pure (some (.annotated a.name a.values))

def elementValues (site : Site) : List ElementValue → EvalM (List Value)
  | [] => pure []
  | v :: rest => do
    let value ← elementValue site v
    let more ← elementValues site rest
    pure (value.toList ++ more)

def annotationValues (site : Site) (before : List (Name × Value)) :
    List (Name × ElementValue) → EvalM (List (Name × Value))
  | [] => pure before
  | (name, v) :: rest => do
    let value ← elementValue site v
    annotationValues site (value.elim before fun w => Table.put name w before) rest

def annotationData (site : Site) : AnnotationUse → EvalM AnnotationData
  | .mk name values => do
    let name ← written name
    let values ← annotationValues site [] values
    pure ⟨p.resolveType site name, values⟩

end

def annotations (site : Site) (m : Modifiers) : EvalM (List AnnotationData) :=
  m.annotations.mapM (p.annotationData site)

def origin (file : FileScope) (line : Nat) : Text :=
  Text.join [file.path, ":", Text.ofNat line]

/-- A field of a type, and its element if it has annotations. -/
def fieldElements (f : FieldRef) : EvalM (Field × List Element) := do
  let c ← p.constant f
  let type ← written (p.fieldTypeName f)
  let annotations ← p.annotations f.site f.field.modifiers
  let element : Element := {
    kind := .field
    name := Text.join [f.owner.qualifiedName, ".", f.field.name]
    annotations
    nested := true
    fields := []
    origin := some (origin f.site.file f.field.line) }
  pure (⟨f.field.name, type, c.map Constant.value⟩,
    if annotations.isEmpty then [] else [element])

def methodElements (t : DeclaredType) (m : MethodDecl) : EvalM (List Element) := do
  let annotations ← p.annotations t.site m.modifiers
  let element : Element := {
    kind := m.kind
    name := Text.join [t.name, ".", m.name]
    annotations
    nested := true
    fields := []
    origin := some (origin t.file m.line) }
  pure (if annotations.isEmpty then [] else [element])

def typeElements (t : DeclaredType) : EvalM (List Element) := do
  let fields ← t.fieldRefs.mapM p.fieldElements
  let annotations ← p.annotations t.outerSite t.modifiers
  let methods ← t.methods.mapM (p.methodElements t)
  let element : Element := {
    kind := .type t.kind
    name := t.name
    annotations
    nested := !t.enclosing.isEmpty
    fields := fields.map (·.1)
    origin := some (origin t.file t.line) }
  pure (fields.flatMap (·.2) ++ element :: methods.flatten)

def elements : EvalM (List Element) := do
  let all ← p.types.mapM p.typeElements
  pure all.flatten

end Program

end LookupGen
