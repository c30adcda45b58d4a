import LookupGen.Proofs.Java.Names

/-!
# Parts of a source file

What is asked of the parts that make up what a source file declares: of the names that it declares
and uses, of its literals and of the texts of its types. A part may lack a text, where the file is
not UTF-8; so more can be asked of parts than of names.
-/

namespace LookupGen.Java

/-- What is asked of the parts of a file. -/
structure PartSpec where
  field : Name → Prop
  /-- Of what stands before the last dot of the name of a field in use. -/
  owner : Written → Prop
  type : Written → Prop
  /-- Of a type in use that has no name to resolve. -/
  otherType : Written → Prop
  /-- Of the number of the brackets of a type in use that has some. -/
  brackets : Nat → Prop
  declared : Name → Prop
  member : Name → Prop
  path : Written → Prop
  string : Written → Prop
  character : Written → Prop
  integer : Written → Prop

section Parts

variable (S : PartSpec)

def Expr.Holds : Expr → Prop
  | .string literal => S.string literal
  | .character literal => S.character literal
  | .integer literal => S.integer literal
  | .name n => S.field n
  | .field owner _ => S.owner owner
  | .paren inner => inner.Holds
  | .plus left right => left.Holds ∧ right.Holds
  | .unary _ operand => operand.Holds
  | .boolean _ | .other => True

mutual

def ElementValue.Holds : ElementValue → Prop
  | .expression e => e.Holds S
  | .array items => ElementValue.AllHold items
  | .annotated (.mk name values) => AnnotationUse.Holds (.mk name values)

def ElementValue.AllHold : List ElementValue → Prop
  | [] => True
  | v :: rest => ElementValue.Holds v ∧ ElementValue.AllHold rest

def AnnotationUse.ValuesHold : List (Name × ElementValue) → Prop
  | [] => True
  | (_, v) :: rest => ElementValue.Holds v ∧ AnnotationUse.ValuesHold rest

def AnnotationUse.Holds : AnnotationUse → Prop
  | .mk name values => S.type name ∧ AnnotationUse.ValuesHold values

end

def Modifiers.Holds (m : Modifiers) : Prop := ∀ a ∈ m.annotations, a.Holds S

def TypeUse.Holds : TypeUse → Prop
  | .named name => S.type name
  | .other text => S.otherType text
  | .array element n => S.brackets n ∧ element.Holds

structure Declarator.Holds (d : Declarator) : Prop where
  name : S.member d.name
  initializer : ∀ e, d.initializer = some e → e.Holds S

mutual

def Member.Holds : Member → Prop
  | .fields m type ds => m.Holds S ∧ type.Holds S ∧ ∀ d ∈ ds, d.Holds S
  | .constant m name _ => m.Holds S ∧ S.member name
  | .method _ m _ _ => m.Holds S
  | .type (.mk kind m name line members) => TypeDeclaration.Holds (.mk kind m name line members)

def Member.AllHold : List Member → Prop
  | [] => True
  | member :: rest => Member.Holds member ∧ Member.AllHold rest

def TypeDeclaration.Holds : TypeDeclaration → Prop
  | .mk _ m name _ members => m.Holds S ∧ S.declared name ∧ Member.AllHold members

end

def Item.Holds : Item → Prop
  | .package name => S.path name
  | .import _ name => S.path name
  | .type d => d.Holds S

end Parts

variable {S : PartSpec}

theorem ElementValue.allHold_iff {vs : List ElementValue} :
    ElementValue.AllHold S vs ↔ ∀ v ∈ vs, v.Holds S := by
  induction vs with
  | nil => simp [ElementValue.AllHold]
  | cons v rest ih => rw [ElementValue.AllHold, ih, List.forall_mem_cons]

theorem AnnotationUse.valuesHold_iff {vs : List (Name × ElementValue)} :
    AnnotationUse.ValuesHold S vs ↔ ∀ v ∈ vs, v.2.Holds S := by
  induction vs with
  | nil => simp [AnnotationUse.ValuesHold]
  | cons v rest ih =>
    obtain ⟨name, v⟩ := v
    rw [AnnotationUse.ValuesHold, ih, List.forall_mem_cons]

theorem Member.allHold_iff {ms : List Member} :
    Member.AllHold S ms ↔ ∀ m ∈ ms, m.Holds S := by
  induction ms with
  | nil => simp [Member.AllHold]
  | cons m rest ih => rw [Member.AllHold, ih, List.forall_mem_cons]

def NameSpec.parts (S : NameSpec) : PartSpec where
  field := S.field
  owner := Meets S.owner
  type := Meets S.type
  otherType _ := True
  brackets _ := True
  declared := S.declared
  member _ := True
  path := Meets S.path
  string _ := True
  character _ := True
  integer _ := True

section Names

variable {S : NameSpec}

theorem Expr.Holds.meets {e : Expr} (he : e.Holds S.parts) : e.Meets S := by
  induction e with
  | string | character | integer | boolean | other => trivial
  | name n => exact he
  | field owner n => exact he
  | paren inner ih => exact ih he
  | plus left right ihl ihr => exact ⟨ihl he.1, ihr he.2⟩
  | unary op operand ih => exact ih he

mutual

theorem ElementValue.Holds.meets : (v : ElementValue) → v.Holds S.parts → v.Meets S
  | .expression e => by
    unfold ElementValue.Meets ElementValue.Holds
    exact Expr.Holds.meets
  | .array items => by
    unfold ElementValue.Meets ElementValue.Holds
    exact ElementValue.AllHold.meet items
  | .annotated (.mk name values) => by
    unfold ElementValue.Meets ElementValue.Holds
    exact AnnotationUse.Holds.meets (.mk name values)

theorem ElementValue.AllHold.meet :
    (vs : List ElementValue) → ElementValue.AllHold S.parts vs → ElementValue.AllMeet S vs
  | [] => id
  | v :: rest => by
    unfold ElementValue.AllMeet ElementValue.AllHold
    exact And.imp (ElementValue.Holds.meets v) (ElementValue.AllHold.meet rest)

theorem AnnotationUse.ValuesHold.meet : (vs : List (Name × ElementValue)) →
    AnnotationUse.ValuesHold S.parts vs → AnnotationUse.ValuesMeet S vs
  | [] => id
  | (_, v) :: rest => by
    unfold AnnotationUse.ValuesMeet AnnotationUse.ValuesHold
    exact And.imp (ElementValue.Holds.meets v) (AnnotationUse.ValuesHold.meet rest)

theorem AnnotationUse.Holds.meets : (a : AnnotationUse) → a.Holds S.parts → a.Meets S
  | .mk name values => by
    unfold AnnotationUse.Meets AnnotationUse.Holds
    exact And.imp id (AnnotationUse.ValuesHold.meet values)

end

theorem Modifiers.Holds.meets {m : Modifiers} (hm : m.Holds S.parts) : m.Meets S :=
  fun a ha => AnnotationUse.Holds.meets a (hm a ha)

theorem TypeUse.Holds.meets {t : TypeUse} (ht : t.Holds S.parts) : t.Meets S := by
  induction t with
  | named name => exact ht
  | other text => trivial
  | array element n ih => exact ih ht.2

theorem Declarator.Holds.meets {d : Declarator} (hd : d.Holds S.parts) : d.Meets S :=
  fun e he => (hd.initializer e he).meets

mutual

theorem Member.Holds.meets : (m : Member) → m.Holds S.parts → m.Meets S
  | .fields m type ds => by
    unfold Member.Meets Member.Holds
    rintro ⟨hm, htype, hds⟩
    exact ⟨hm.meets, htype.meets, fun d hd => (hds d hd).meets⟩
  | .constant m name _ => by
    unfold Member.Meets Member.Holds
    exact fun h => h.1.meets
  | .method _ m _ _ => by
    unfold Member.Meets Member.Holds
    exact Modifiers.Holds.meets
  | .type (.mk kind m name line members) => by
    unfold Member.Meets Member.Holds
    exact TypeDeclaration.Holds.meets (.mk kind m name line members)

theorem Member.AllHold.meet :
    (ms : List Member) → Member.AllHold S.parts ms → Member.AllMeet S ms
  | [] => id
  | m :: rest => by
    unfold Member.AllMeet Member.AllHold
    exact And.imp (Member.Holds.meets m) (Member.AllHold.meet rest)

theorem TypeDeclaration.Holds.meets : (d : TypeDeclaration) → d.Holds S.parts → d.Meets S
  | .mk _ m name _ members => by
    unfold TypeDeclaration.Meets TypeDeclaration.Holds
    rintro ⟨hm, hname, hmembers⟩
    exact ⟨hm.meets, hname, Member.AllHold.meet members hmembers⟩

end

theorem Item.Holds.meets {item : Item} (hitem : item.Holds S.parts) : item.Meets S := by
  cases item with
  | package name => exact hitem
  | «import» form name => exact hitem
  | type d => exact TypeDeclaration.Holds.meets d hitem

end Names

end LookupGen.Java
