import LookupGen.Generation
import LookupGen.Program.Elements
import LookupGen.Proofs.Program.Soundness

/-!
# Values of fields

What the elements of a program say of the constants of fields. The value of a character and that of
a string are texts alike; which of them a field has shows in its type.
-/

namespace LookupGen

open EvalM (Succeeds succeeds_pure succeeds_bind succeeds_written succeeds_mapM)
open Java (AnnotationUse ElementValue Modifiers)

/-- How a field of a type of some kind is declared: a constant of an enumeration has no initializer,
and another field that is final is so by itself or by the kind of the type. -/
structure FieldDecl.DeclaredIn (kind : TypeKind) (f : FieldDecl) : Prop where
  enumConstant : f.type = none → f.initializer = none
  final : f.isFinal = true →
    f.type = none ∨ kind = .interface ∨ kind = .annotationType ∨ f.modifiers.isFinal = true

namespace DeclaredType

theorem declaredIn_of_mem_fieldsOf {kind : TypeKind} {members : List Java.Member} {f : FieldDecl}
    (h : f ∈ fieldsOf kind members) : f.DeclaredIn kind := by
  obtain ⟨m, -, hf⟩ := mem_memberFields_of_mem_fieldsOf h
  cases m with
  | fields modifiers type ds =>
    obtain ⟨d, -, rfl⟩ := List.mem_map.mp hf
    refine ⟨nofun, ?_⟩
    intro hfinal
    rcases (Bool.or_eq_true _ _).mp hfinal with hkind | hmodifiers
    · rcases of_decide_eq_true hkind with hkind | hkind
      · exact .inr (.inl hkind)
      · exact .inr (.inr (.inl hkind))
    · exact .inr (.inr (.inr hmodifiers))
  | constant modifiers name line =>
    obtain rfl := List.mem_singleton.mp hf
    exact ⟨fun _ => rfl, fun _ => .inl rfl⟩
  | method kind modifiers name line => cases hf
  | type d => cases hf

theorem declaredIn_of_mem_ofDeclaration (file : FileScope) (around : List TypeScope) (id : Nat)
    (name : Name) (d : Java.TypeDeclaration) :
    ∀ t ∈ ofDeclaration file around id name d, ∀ f ∈ t.scope.fields, f.DeclaredIn t.kind := by
  refine forall_mem_ofDeclaration (Q := fun _ => True) ?_ ?_ file around id name d trivial
  · exact fun _ _ _ _ _ _ _ _ => trivial
  · intro file around id name kind m simple line members _ f hf
    exact declaredIn_of_mem_fieldsOf hf

end DeclaredType

namespace Program

variable {p : Program} {f : FieldRef}

theorem Built.declaredIn (hp : p.Built) :
    ∀ t ∈ p.types, ∀ f ∈ t.scope.fields, f.DeclaredIn t.kind := by
  induction hp with
  | start known => exact fun t ht => absurd ht List.not_mem_nil
  | addFile _ h ih =>
    obtain ⟨c, -, h⟩ := bind_eq_ok.mp h
    obtain rfl := Except.ok.inj h
    refine List.forall_mem_append.mpr ⟨ih, ?_⟩
    exact DeclaredType.forall_mem_fileTypes (Q := fun _ => True)
      (fun file around id name d _ =>
        DeclaredType.declaredIn_of_mem_ofDeclaration file around id name d)
      c.1 _ c.2 fun _ _ => trivial

theorem fits_iff {type : Name} {c : Constant} :
    fits type c = true ↔ (type = stringType ↔ ∃ u, c = .string u) := by
  unfold fits
  cases c with
  | string u => simp [Constant.isString]
  | character u | boolean b | int n | long n => simp [Constant.isString]

theorem mayBeConstant_iff {type : Name} :
    mayBeConstant type = true ↔ type = stringType ∨ type ∈ primitiveTypes := by
  simp [mayBeConstant]

/-- An array is of no type that admits constants: the name of each ends in a letter. -/
theorem mayBeConstant_brackets (t : Name) {n : Nat} (hn : 0 < n) :
    mayBeConstant (Text.join (t :: List.replicate n "[]")) = false := by
  obtain ⟨k, rfl⟩ : ∃ k, n = k + 1 := ⟨n - 1, by omega⟩
  have hlast : (Text.join (t :: List.replicate (k + 1) "[]")).getLast? =
      some (CodePoint.ofChar ']') := by
    rw [List.replicate_succ', ← List.cons_append, Text.join, List.flatten_append]
    exact List.getLast?_append_of_ne_nil _ (by decide)
  have hletter : ∀ type ∈ stringType :: primitiveTypes,
      type.getLast? ≠ some (CodePoint.ofChar ']') := by decide
  rw [Bool.eq_false_iff, ne_eq, mayBeConstant_iff, ← List.mem_cons]
  exact fun hmem => hletter _ hmem hlast

theorem not_admits_array {u : Java.TypeUse} {n : Nat} (htype : f.field.type = some (.array u n))
    (hn : 0 < n) (c : Constant) : ¬ p.Admits f c := by
  intro h
  obtain ⟨type, hname, hmay, -⟩ := h.type
  unfold fieldTypeName at hname
  rw [htype, h.dimensions] at hname
  simp only [typeName] at hname
  cases helement : p.typeName f.site u with
  | error e =>
    rw [helement] at hname
    cases hname
  | ok t =>
    rw [helement] at hname
    obtain rfl := Except.ok.inj hname
    have hbrackets := mayBeConstant_brackets t hn
    simp only [Text.join, List.replicate_zero, List.flatten_cons, List.flatten_nil,
      List.append_nil] at hmay hbrackets
    rw [hmay] at hbrackets
    cases hbrackets

/-- What the element of a type says of one of its fields. The constant of the field is that which it
has if it is the first one that is asked for. -/
structure FieldSound (p : Program) (t : DeclaredType) (f : FieldRef) (e : Field) : Prop where
  name : e.name = f.field.name
  type : p.fieldTypeName f = .ok e.type
  value : ∃ c, p.alone f = .ok c ∧ Sound c ∧ e.constant = c.map Constant.value
  /-- A field of type `String` has a string constant, or none. -/
  string : e.type = stringType → e.constant = none ∨
    ∃ u, p.alone f = .ok (some (.string u)) ∧ e.constant = some (.text u)
  /-- A field of a primitive type has no string constant. -/
  primitive : e.type ∈ primitiveTypes → ∀ u, p.alone f ≠ .ok (some (.string u))
  other : e.type ≠ stringType → e.type ∉ primitiveTypes → e.constant = none
  array : f.field.dimensions ≠ 0 ∨ (∃ u n, f.field.type = some (.array u n)) → e.constant = none
  notFinal : t.kind ≠ .interface → t.kind ≠ .annotationType → f.field.modifiers.isFinal = false →
    e.constant = none
  enumConstant : f.field.type = none → e.constant = none
  /-- What counts as a string constant when constants are collected is one. -/
  collected : (Generation.constant? e).isSome = true ↔ ∃ u, p.alone f = .ok (some (.string u))

/-- The element of a type: its fields are those of the type. -/
structure TypeSound (p : Program) (t : DeclaredType) (e : Element) : Prop where
  kind : e.kind = .type t.kind
  name : e.name = t.name
  fields : List.Forall₂ (p.FieldSound t) t.fieldRefs e.fields

theorem isSome_constant?_iff {e : Field} :
    (Generation.constant? e).isSome = true ↔
      e.type = stringType ∧ ∃ u, e.constant = some (.text u) := by
  unfold Generation.constant?
  split
  · rename_i htype
    cases e.constant with
    | none => simp
    | some v => cases v <;> simp [Value.text?, htype]
  · rename_i htype
    simp [htype]

/-- A constant that the declaration of its field admits leaves no doubt what its value is. -/
theorem fieldSound_of_admits {t : DeclaredType} (hdeclared : f.field.DeclaredIn t.kind)
    (hreadable : f.field.Holds .readable) {type : Name} (htype : p.fieldTypeName f = .ok type)
    {c : Option Constant} (halone : p.alone f = .ok c) (hc : p.AdmitsAll f c) :
    p.FieldSound t f ⟨f.field.name, type, c.map Constant.value⟩ := by
  have hnone (h : ∀ k, ¬ p.Admits f k) : c.map Constant.value = none := by
    rw [Option.map_eq_none_iff, Option.eq_none_iff_forall_not_mem]
    exact fun k hk => h k (hc k hk)
  have hfits : ∀ k ∈ c, (type = stringType ∨ type ∈ primitiveTypes) ∧
      (type = stringType ↔ ∃ u, k = .string u) := by
    intro k hk
    obtain ⟨type', htype', hmay, hfits⟩ := (hc k hk).type
    obtain rfl := Except.ok.inj (htype'.symm.trans htype)
    exact ⟨mayBeConstant_iff.mp hmay, fits_iff.mp hfits⟩
  have hstring {u : Text} (h : p.alone f = .ok (some (.string u))) :
      c = some (.string u) ∧ type = stringType := by
    obtain rfl := Except.ok.inj (halone.symm.trans h)
    exact ⟨rfl, (hfits _ rfl).2.mpr ⟨u, rfl⟩⟩
  refine {
    name := rfl
    type := htype
    value := ⟨c, halone, hc.sound, rfl⟩
    string := ?string
    primitive := ?primitive
    other := ?other
    array := ?array
    notFinal := ?notFinal
    enumConstant := ?enumConstant
    collected := ?collected }
  case string =>
    rintro rfl
    cases c with
    | none => exact .inl rfl
    | some k =>
      obtain ⟨u, rfl⟩ := (hfits k rfl).2.mp rfl
      exact .inr ⟨u, halone, rfl⟩
  case primitive =>
    intro hprimitive u hu
    obtain ⟨-, rfl⟩ := hstring hu
    have hstringType : stringType ∉ primitiveTypes := by decide
    exact hstringType hprimitive
  case other =>
    intro hne hprimitive
    rw [Option.map_eq_none_iff, Option.eq_none_iff_forall_not_mem]
    exact fun k hk => (hfits k hk).1.elim hne hprimitive
  case array =>
    rintro (hdimensions | ⟨u, n, harray⟩)
    · exact hnone fun k hk => hdimensions hk.dimensions
    · exact hnone (not_admits_array harray (hreadable.type _ harray).1)
  case notFinal =>
    intro hinterface hannotation hmodifiers
    apply hnone
    intro k hk
    rcases hdeclared.final hk.final with htype | hkind | hkind | hfinal
    · exact hk.initialized (hdeclared.enumConstant htype)
    · exact hinterface hkind
    · exact hannotation hkind
    · rw [hmodifiers] at hfinal
      cases hfinal
  case enumConstant =>
    exact fun h => hnone fun k hk => hk.initialized (hdeclared.enumConstant h)
  case collected =>
    rw [isSome_constant?_iff]
    constructor
    · rintro ⟨rfl, u, hu⟩
      obtain ⟨k, rfl, -⟩ := Option.map_eq_some_iff.mp hu
      obtain ⟨u, rfl⟩ := (hfits k rfl).2.mp rfl
      exact ⟨u, halone⟩
    · rintro ⟨u, hu⟩
      obtain ⟨rfl, rfl⟩ := hstring hu
      exact ⟨rfl, u, rfl⟩

/-- Constants of fields can be asked for in states with a property, and come out sound. -/
def ConstantsSound (p : Program) (I : EvalState → Prop) : Prop :=
  ∀ g ∈ p.fields, Succeeds I Sound (p.constant g)

namespace ConstantsSound

variable {I : EvalState → Prop} {site : Site}

mutual

theorem elementValue (hp : p.ConstantsSound I) (hsite : p.HasSite site) :
    (v : ElementValue) → v.Holds .readable →
      Succeeds I (fun _ => True) (p.elementValue site v)
  | .expression e => by
    unfold Program.elementValue ElementValue.Holds
    intro he
    exact succeeds_bind (evaluate_succeeds hp hsite he) fun c _ => succeeds_pure trivial
  | .array items => by
    unfold Program.elementValue ElementValue.Holds
    intro hitems
    exact succeeds_bind (elementValues hp hsite items hitems) fun values _ => succeeds_pure trivial
  | .annotated (.mk name values) => by
    unfold Program.elementValue ElementValue.Holds
    intro ha
    exact succeeds_bind (annotationData hp hsite (.mk name values) ha)
      fun a _ => succeeds_pure trivial

theorem elementValues (hp : p.ConstantsSound I) (hsite : p.HasSite site) :
    (vs : List ElementValue) → ElementValue.AllHold .readable vs →
      Succeeds I (fun _ => True) (p.elementValues site vs)
  | [] => by
    unfold Program.elementValues
    exact fun _ => succeeds_pure trivial
  | v :: rest => by
    unfold Program.elementValues ElementValue.AllHold
    rintro ⟨hv, hrest⟩
    refine succeeds_bind (elementValue hp hsite v hv) ?_
    intro value _
    exact succeeds_bind (elementValues hp hsite rest hrest) fun more _ => succeeds_pure trivial

theorem annotationValues (hp : p.ConstantsSound I) (hsite : p.HasSite site) :
    (before : List (Name × Value)) → (vs : List (Name × ElementValue)) →
      AnnotationUse.ValuesHold .readable vs →
      Succeeds I (fun _ => True) (p.annotationValues site before vs)
  | before, [] => by
    unfold Program.annotationValues
    exact fun _ => succeeds_pure trivial
  | before, (name, v) :: rest => by
    unfold Program.annotationValues AnnotationUse.ValuesHold
    rintro ⟨hv, hrest⟩
    exact succeeds_bind (elementValue hp hsite v hv)
      fun value _ => annotationValues hp hsite _ rest hrest

theorem annotationData (hp : p.ConstantsSound I) (hsite : p.HasSite site) :
    (a : AnnotationUse) → a.Holds .readable → Succeeds I (fun _ => True) (p.annotationData site a)
  | .mk name values => by
    unfold Program.annotationData AnnotationUse.Holds
    rintro ⟨hname, hvalues⟩
    refine succeeds_bind (succeeds_written hname) ?_
    intro name _
    exact succeeds_bind (annotationValues hp hsite [] values hvalues)
      fun values _ => succeeds_pure trivial

end

theorem annotations (hp : p.ConstantsSound I) (hsite : p.HasSite site) {m : Modifiers}
    (hm : m.Holds .readable) : Succeeds I (fun _ => True) (p.annotations site m) :=
  (succeeds_mapM fun a ha => hp.annotationData hsite a (hm a ha)).imp fun _ _ => trivial

end ConstantsSound

def Settles (p : Program) (s : EvalState) : Prop := p.Remembers [] s ∧ p.SoundState s

section Types

variable (hp : p.Built) (hreadable : p.Holds .readable)

include hp hreadable

theorem constant_succeeds (hf : f ∈ p.fields) :
    Succeeds p.Settles (fun c => p.alone f = .ok c ∧ p.AdmitsAll f c) (p.constant f) := by
  rintro s ⟨hright, hsound⟩
  obtain ⟨hafter, halone⟩ := demand_step hp.wellScoped (Nat.lt_succ_self _) hf hright
  obtain ⟨c, hc, hadmits, hlast⟩ :=
    constantWithin_succeeds hp.wellScoped hreadable (p.fieldCount + 1) hf s hsound
  exact ⟨c, hc, ⟨halone.symm.trans hc, hadmits⟩, hafter, hlast⟩

theorem constantsSound : p.ConstantsSound p.Settles :=
  fun _ hg => (constant_succeeds hp hreadable hg).imp fun _ hc => hc.2.sound

variable {t : DeclaredType} (ht : t ∈ p.types)

include ht

theorem fieldElements_succeeds (hf : f ∈ t.fieldRefs) :
    Succeeds p.Settles (fun r => p.FieldSound t f r.1 ∧ ∀ e ∈ r.2, e.fields = [])
      (p.fieldElements f) := by
  have hmem : f ∈ p.fields := List.mem_flatMap.mpr ⟨t, ht, hf⟩
  have hdeclared : f.field.DeclaredIn t.kind := by
    obtain ⟨d, hd, rfl⟩ := List.mem_map.mp hf
    exact hp.declaredIn t ht d hd
  have hparts := hreadable.field hmem
  unfold fieldElements
  refine succeeds_bind (constant_succeeds hp hreadable hmem) ?_
  rintro c ⟨halone, hc⟩
  refine succeeds_bind (succeeds_written (exists_fieldTypeName hparts)) ?_
  intro type htype
  have hsite := hp.wellScoped.hasSite_of_mem hmem
  refine succeeds_bind ((constantsSound hp hreadable).annotations hsite hparts.modifiers) ?_
  intro annotations _
  refine succeeds_pure ⟨fieldSound_of_admits hdeclared hparts htype halone hc, ?_⟩
  intro e he
  simp only at he
  split at he
  · cases he
  · obtain rfl := List.mem_singleton.mp he
    rfl

theorem methodElements_succeeds {m : MethodDecl} (hm : m ∈ t.methods) :
    Succeeds p.Settles (fun es => ∀ e ∈ es, e.fields = []) (p.methodElements t m) := by
  have hsite := hp.wellScoped.hasSite_site ht
  unfold methodElements
  refine succeeds_bind
    ((constantsSound hp hreadable).annotations hsite ((hreadable t ht).methods m hm)) ?_
  intro annotations _
  refine succeeds_pure ?_
  intro e he
  split at he
  · cases he
  · obtain rfl := List.mem_singleton.mp he
    rfl

theorem typeElements_succeeds :
    Succeeds p.Settles
      (fun es => ∃ e ∈ es, p.TypeSound t e ∧ ∀ e' ∈ es, e' = e ∨ e'.fields = [])
      (p.typeElements t) := by
  unfold typeElements
  refine succeeds_bind
    (succeeds_mapM fun f hf => fieldElements_succeeds hp hreadable ht hf) ?_
  intro fields hfields
  have houter : p.HasSite t.outerSite := hp.wellScoped.scopes t ht
  refine succeeds_bind
    ((constantsSound hp hreadable).annotations houter (hreadable t ht).modifiers) ?_
  intro annotations _
  refine succeeds_bind
    (succeeds_mapM fun m hm => methodElements_succeeds hp hreadable ht hm) ?_
  intro methods hmethods
  refine succeeds_pure ⟨_, List.mem_append_right _ List.mem_cons_self, ⟨rfl, rfl, ?_⟩, ?_⟩
  · rw [List.forall₂_map_right_iff]
    exact hfields.imp fun _ _ h => h.1
  · intro e he
    rcases List.mem_append.mp he with he | he
    · obtain ⟨r, hr, he⟩ := List.mem_flatMap.mp he
      obtain ⟨f, -, -, hnone⟩ := exists_of_mem_right hfields hr
      exact .inr (hnone e he)
    · rcases List.mem_cons.mp he with rfl | he
      · exact .inl rfl
      · obtain ⟨es, hes, he⟩ := List.mem_flatten.mp he
        obtain ⟨m, -, hnone⟩ := exists_of_mem_right hmethods hes
        exact .inr (hnone e he)

end Types

/-- Each type of a program has its element, and no other element has fields. -/
structure ElementsSound (p : Program) (es : List Element) : Prop where
  types : ∀ t ∈ p.types, ∃ e ∈ es, p.TypeSound t e
  elements : ∀ e ∈ es, e.fields = [] ∨ ∃ t ∈ p.types, p.TypeSound t e

theorem elements_succeeds (hp : p.Built) (hreadable : p.Holds .readable) :
    Succeeds p.Settles p.ElementsSound p.elements := by
  unfold elements
  refine succeeds_bind (succeeds_mapM fun t ht => typeElements_succeeds hp hreadable ht) ?_
  intro blocks hblocks
  refine succeeds_pure ⟨?_, ?_⟩
  · intro t ht
    obtain ⟨es, hes, e, he, hsound, -⟩ := exists_of_mem_right hblocks.flip ht
    exact ⟨e, List.mem_flatten.mpr ⟨es, hes, he⟩, hsound⟩
  · intro e he
    obtain ⟨es, hes, he⟩ := List.mem_flatten.mp he
    obtain ⟨t, ht, own, -, hsound, hothers⟩ := exists_of_mem_right hblocks hes
    rcases hothers e he with rfl | hnone
    · exact .inr ⟨t, ht, hsound⟩
    · exact .inl hnone

end Program

end LookupGen
