import LookupGen.Java.Tree

/-!
# Names in a source file

A source file holds names as they are written. What is asked of them, by what they name, and when
all names in a part of a file meet it.

This module does NOT say what the names mean; that is a matter of programs.
-/

namespace LookupGen.Java

/-- What is asked of names. -/
structure NameSpec where
  /-- Of the simple name of a field in use. -/
  field : Name → Prop
  /-- Of what stands before the last dot of the name of a field in use. -/
  owner : Name → Prop
  /-- Of the name of a type or an annotation in use. -/
  type : Name → Prop
  declared : Name → Prop
  /-- Of the name of a package, and of what is imported. -/
  path : Name → Prop

structure NameSpec.Le (S T : NameSpec) : Prop where
  field : ∀ n, S.field n → T.field n
  owner : ∀ n, S.owner n → T.owner n
  type : ∀ n, S.type n → T.type n
  declared : ∀ n, S.declared n → T.declared n
  path : ∀ n, S.path n → T.path n

def Meets (P : Name → Prop) (w : Written) : Prop := ∀ n, w = .ok n → P n

theorem Meets.imp {P Q : Name → Prop} {w : Written} (h : Meets P w) (hle : ∀ n, P n → Q n) :
    Meets Q w := fun n hn => hle n (h n hn)

section Parts

variable (S : NameSpec)

def Expr.Meets : Expr → Prop
  | .name n => S.field n
  | .field owner _ => Java.Meets S.owner owner
  | .paren inner => inner.Meets
  | .plus left right => left.Meets ∧ right.Meets
  | .unary _ operand => operand.Meets
  | .string _ | .character _ | .integer _ | .boolean _ | .other => True

mutual

def ElementValue.Meets : ElementValue → Prop
  | .expression e => e.Meets S
  | .array items => ElementValue.AllMeet items
  | .annotated (.mk name values) => AnnotationUse.Meets (.mk name values)

def ElementValue.AllMeet : List ElementValue → Prop
  | [] => True
  | v :: rest => ElementValue.Meets v ∧ ElementValue.AllMeet rest

def AnnotationUse.ValuesMeet : List (Name × ElementValue) → Prop
  | [] => True
  | (_, v) :: rest => ElementValue.Meets v ∧ AnnotationUse.ValuesMeet rest

def AnnotationUse.Meets : AnnotationUse → Prop
  | .mk name values => Java.Meets S.type name ∧ AnnotationUse.ValuesMeet values

end

def Modifiers.Meets (m : Modifiers) : Prop := ∀ a ∈ m.annotations, a.Meets S

def TypeUse.Meets : TypeUse → Prop
  | .named name => Java.Meets S.type name
  | .other _ => True
  | .array element _ => element.Meets

def Declarator.Meets (d : Declarator) : Prop := ∀ e, d.initializer = some e → e.Meets S

mutual

def Member.Meets : Member → Prop
  | .fields m type ds => m.Meets S ∧ type.Meets S ∧ ∀ d ∈ ds, d.Meets S
  | .constant m _ _ => m.Meets S
  | .method _ m _ _ => m.Meets S
  | .type (.mk kind m name line members) => TypeDeclaration.Meets (.mk kind m name line members)

def Member.AllMeet : List Member → Prop
  | [] => True
  | member :: rest => Member.Meets member ∧ Member.AllMeet rest

def TypeDeclaration.Meets : TypeDeclaration → Prop
  | .mk _ m name _ members => m.Meets S ∧ S.declared name ∧ Member.AllMeet members

end

def Item.Meets : Item → Prop
  | .package name => Java.Meets S.path name
  | .import _ name => Java.Meets S.path name
  | .type d => d.Meets S

end Parts

variable {S T : NameSpec}

theorem Member.allMeet_iff {ms : List Member} :
    Member.AllMeet S ms ↔ ∀ m ∈ ms, m.Meets S := by
  induction ms with
  | nil => simp [Member.AllMeet]
  | cons m rest ih => rw [Member.AllMeet, ih, List.forall_mem_cons]

theorem Expr.Meets.imp (h : S.Le T) {e : Expr} (he : e.Meets S) : e.Meets T := by
  induction e with
  | string | character | integer | boolean | other => trivial
  | name n => exact h.field n he
  | field owner n => exact Java.Meets.imp he h.owner
  | paren inner ih => exact ih he
  | plus left right ihl ihr => exact ⟨ihl he.1, ihr he.2⟩
  | unary op operand ih => exact ih he

mutual

theorem ElementValue.Meets.imp (h : S.Le T) : (v : ElementValue) → v.Meets S → v.Meets T
  | .expression e => by
    unfold ElementValue.Meets
    exact Expr.Meets.imp h
  | .array items => by
    unfold ElementValue.Meets
    exact ElementValue.AllMeet.imp h items
  | .annotated (.mk name values) => by
    unfold ElementValue.Meets
    exact AnnotationUse.Meets.imp h (.mk name values)

theorem ElementValue.AllMeet.imp (h : S.Le T) :
    (vs : List ElementValue) → ElementValue.AllMeet S vs → ElementValue.AllMeet T vs
  | [] => id
  | v :: rest => by
    unfold ElementValue.AllMeet
    exact And.imp (ElementValue.Meets.imp h v) (ElementValue.AllMeet.imp h rest)

theorem AnnotationUse.ValuesMeet.imp (h : S.Le T) :
    (vs : List (Name × ElementValue)) → AnnotationUse.ValuesMeet S vs →
    AnnotationUse.ValuesMeet T vs
  | [] => id
  | (_, v) :: rest => by
    unfold AnnotationUse.ValuesMeet
    exact And.imp (ElementValue.Meets.imp h v) (AnnotationUse.ValuesMeet.imp h rest)

theorem AnnotationUse.Meets.imp (h : S.Le T) : (a : AnnotationUse) → a.Meets S → a.Meets T
  | .mk name values => by
    unfold AnnotationUse.Meets
    exact And.imp (fun hname => Java.Meets.imp hname h.type) (AnnotationUse.ValuesMeet.imp h values)

end

theorem Modifiers.Meets.imp (h : S.Le T) {m : Modifiers} (hm : m.Meets S) : m.Meets T :=
  fun a ha => AnnotationUse.Meets.imp h a (hm a ha)

theorem TypeUse.Meets.imp (h : S.Le T) {t : TypeUse} (ht : t.Meets S) : t.Meets T := by
  induction t with
  | named name => exact Java.Meets.imp ht h.type
  | other text => trivial
  | array element n ih => exact ih ht

theorem Declarator.Meets.imp (h : S.Le T) {d : Declarator} (hd : d.Meets S) : d.Meets T :=
  fun e he => Expr.Meets.imp h (hd e he)

mutual

theorem Member.Meets.imp (h : S.Le T) : (m : Member) → m.Meets S → m.Meets T
  | .fields m type ds => by
    unfold Member.Meets
    rintro ⟨hm, htype, hds⟩
    exact ⟨hm.imp h, htype.imp h, fun d hd => (hds d hd).imp h⟩
  | .constant m _ _ => Modifiers.Meets.imp h
  | .method _ m _ _ => Modifiers.Meets.imp h
  | .type (.mk kind m name line members) => by
    unfold Member.Meets
    exact TypeDeclaration.Meets.imp h (.mk kind m name line members)

theorem Member.AllMeet.imp (h : S.Le T) :
    (ms : List Member) → Member.AllMeet S ms → Member.AllMeet T ms
  | [] => id
  | m :: rest => by
    unfold Member.AllMeet
    exact And.imp (Member.Meets.imp h m) (Member.AllMeet.imp h rest)

theorem TypeDeclaration.Meets.imp (h : S.Le T) : (d : TypeDeclaration) → d.Meets S → d.Meets T
  | .mk _ m name _ members => by
    unfold TypeDeclaration.Meets
    rintro ⟨hm, hname, hmembers⟩
    exact ⟨hm.imp h, h.declared name hname, Member.AllMeet.imp h members hmembers⟩

end

theorem Item.Meets.imp (h : S.Le T) {item : Item} (hitem : item.Meets S) : item.Meets T := by
  cases item with
  | package name => exact Java.Meets.imp hitem h.path
  | «import» form name => exact Java.Meets.imp hitem h.path
  | type d => exact TypeDeclaration.Meets.imp h d hitem

structure NameSpec.Any (S : NameSpec) : Prop where
  field : ∀ n, S.field n
  owner : ∀ n, S.owner n
  type : ∀ n, S.type n

theorem Expr.meets_of_any (h : S.Any) (e : Expr) : e.Meets S := by
  induction e with
  | string | character | integer | boolean | other => trivial
  | name n => exact h.field n
  | field owner n => exact fun o _ => h.owner o
  | paren inner ih => exact ih
  | plus left right ihl ihr => exact ⟨ihl, ihr⟩
  | unary op operand ih => exact ih

mutual

theorem ElementValue.meets_of_any (h : S.Any) : (v : ElementValue) → v.Meets S
  | .expression e => by
    unfold ElementValue.Meets
    exact e.meets_of_any h
  | .array items => by
    unfold ElementValue.Meets
    exact ElementValue.allMeet_of_any h items
  | .annotated (.mk name values) => by
    unfold ElementValue.Meets
    exact AnnotationUse.meets_of_any h (.mk name values)

theorem ElementValue.allMeet_of_any (h : S.Any) :
    (vs : List ElementValue) → ElementValue.AllMeet S vs
  | [] => trivial
  | v :: rest => ⟨ElementValue.meets_of_any h v, ElementValue.allMeet_of_any h rest⟩

theorem AnnotationUse.valuesMeet_of_any (h : S.Any) :
    (vs : List (Name × ElementValue)) → AnnotationUse.ValuesMeet S vs
  | [] => trivial
  | (_, v) :: rest => ⟨ElementValue.meets_of_any h v, AnnotationUse.valuesMeet_of_any h rest⟩

theorem AnnotationUse.meets_of_any (h : S.Any) : (a : AnnotationUse) → a.Meets S
  | .mk _ values => ⟨fun n _ => h.type n, AnnotationUse.valuesMeet_of_any h values⟩

end

theorem Modifiers.meets_of_any (h : S.Any) (m : Modifiers) : m.Meets S :=
  fun a _ => AnnotationUse.meets_of_any h a

theorem TypeUse.meets_of_any (h : S.Any) (t : TypeUse) : t.Meets S := by
  induction t with
  | named name => exact fun n _ => h.type n
  | other text => trivial
  | array element n ih => exact ih

end LookupGen.Java
