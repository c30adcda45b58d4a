import LookupGen.Proofs.Program.Confined
import LookupGen.Proofs.Program.Constants
import Mathlib.Data.List.Find

/-!
# Numbers of types

The numbers that tell the bodies of a program apart show in nothing that names and fields come to:
two programs agree on the constants of their fields if their types of each name differ in numbers
only.
-/

namespace LookupGen

/-- A scope as every program has it. -/
def TypeScope.unnumbered (s : TypeScope) : TypeScope := { s with id := 0 }

def Site.unnumbered (s : Site) : Site := ⟨s.file, s.scopes.map TypeScope.unnumbered⟩

theorem Site.file_eq {site site' : Site} (h : site.unnumbered = site'.unnumbered) :
    site.file = site'.file := (Site.mk.inj h).1

theorem Site.scopes_eq {site site' : Site} (h : site.unnumbered = site'.unnumbered) :
    site.scopes.map TypeScope.unnumbered = site'.scopes.map TypeScope.unnumbered :=
  (Site.mk.inj h).2

def FieldRef.unnumbered (f : FieldRef) : FieldRef :=
  ⟨f.site.unnumbered, f.owner.unnumbered, f.field⟩

namespace FieldRef

variable {f f' : FieldRef}

theorem site_eq (h : f.unnumbered = f'.unnumbered) : f.site.unnumbered = f'.site.unnumbered :=
  (FieldRef.mk.inj h).1

theorem ownerName_eq (h : f.unnumbered = f'.unnumbered) :
    f.owner.qualifiedName = f'.owner.qualifiedName :=
  (TypeScope.mk.inj (FieldRef.mk.inj h).2.1).2.2.1

theorem field_eq (h : f.unnumbered = f'.unnumbered) : f.field = f'.field :=
  (FieldRef.mk.inj h).2.2

end FieldRef

namespace DeclaredType

def unnumbered (t : DeclaredType) : DeclaredType :=
  { t with scope := t.scope.unnumbered, enclosing := t.enclosing.map TypeScope.unnumbered }

section Parts

variable {t t' : DeclaredType}

theorem scope_eq (h : t.unnumbered = t'.unnumbered) :
    t.scope.unnumbered = t'.scope.unnumbered := (DeclaredType.mk.inj h).2.1

theorem fields_eq (h : t.unnumbered = t'.unnumbered) : t.scope.fields = t'.scope.fields :=
  (TypeScope.mk.inj (scope_eq h)).2.2.2.2

theorem parts_eq (h : t.unnumbered = t'.unnumbered) :
    t.file = t'.file ∧ t.name = t'.name ∧ t.enclosing.isEmpty = t'.enclosing.isEmpty ∧
      t.kind = t'.kind ∧ t.modifiers = t'.modifiers ∧ t.line = t'.line ∧
      t.methods = t'.methods := by
  obtain ⟨hfile, hscope, henclosing, hkind, hmodifiers, hline, hmethods⟩ := DeclaredType.mk.inj h
  refine ⟨hfile, (TypeScope.mk.inj hscope).2.2.1, ?_, hkind, hmodifiers, hline, hmethods⟩
  rw [← List.isEmpty_map (f := TypeScope.unnumbered), henclosing, List.isEmpty_map]

end Parts

@[simp] theorem field?_unnumbered (t : DeclaredType) (n : Name) :
    t.unnumbered.field? n = (t.field? n).map FieldRef.unnumbered := by
  unfold field?
  rw [Option.map_map]
  rfl

/-- By induction on the declaration: the numbers stand in the scopes alone. -/
theorem ofDeclaration_unnumbered (file : FileScope) (around around' : List TypeScope)
    (id id' : Nat) (name : Name) (d : Java.TypeDeclaration)
    (h : around.map TypeScope.unnumbered = around'.map TypeScope.unnumbered) :
    (ofDeclaration file around id name d).map unnumbered =
      (ofDeclaration file around' id' name d).map unnumbered := by
  refine DeclaredType.ofDeclaration.induct file
    (fun around id name d => ∀ around' id',
      around.map TypeScope.unnumbered = around'.map TypeScope.unnumbered →
      (ofDeclaration file around id name d).map unnumbered =
        (ofDeclaration file around' id' name d).map unnumbered)
    (fun around id outer ms => ∀ around' id',
      around.map TypeScope.unnumbered = around'.map TypeScope.unnumbered →
      (ofMembers file around id outer ms).map unnumbered =
        (ofMembers file around' id' outer ms).map unnumbered)
    (fun around id outer m => ∀ around' id',
      around.map TypeScope.unnumbered = around'.map TypeScope.unnumbered →
      (ofMember file around id outer m).map unnumbered =
        (ofMember file around' id' outer m).map unnumbered)
    ?_ ?_ ?_ ?_ ?_ around id name d around' id' h
  · intro around id outer kind m name line members ih around' id' h
    simpa only [ofMember] using ih around' id' h
  · intro m around id outer hm around' id' _
    have hnone (around : List TypeScope) (id : Nat) : ofMember file around id outer m = [] := by
      unfold ofMember
      split
      · exact (hm _ _ _ _ _ rfl).elim
      · rfl
    rw [hnone, hnone]
  · intro around id name kind m simple line members scope ih around' id' h
    simp only [ofDeclaration, List.map_cons]
    congr 1
    · simp only [unnumbered, h]
      rfl
    · apply ih
      rw [List.map_cons, List.map_cons, h]
      rfl
  · intro around id outer around' id' _
    simp only [ofMembers]
  · intro around id outer member rest own ihMember ihRest around' id' h
    simp only [ofMembers, List.map_append]
    rw [ihMember around' id' h, ihRest around' _ h]

end DeclaredType

theorem Program.fileTypes_unnumbered (file : FileScope) (id id' : Nat)
    (types : List (Name × Java.TypeDeclaration)) :
    (fileTypes file id types).map DeclaredType.unnumbered =
      (fileTypes file id' types).map DeclaredType.unnumbered := by
  induction types generalizing id id' with
  | nil => rfl
  | cons entry rest ih =>
    obtain ⟨qualified, d⟩ := entry
    simp only [fileTypes, List.map_append]
    rw [DeclaredType.ofDeclaration_unnumbered file [] [] id id' qualified d rfl, ih]

@[simp] theorem typeInScopes_unnumbered (n : Name) (scopes : List TypeScope) :
    typeInScopes n (scopes.map TypeScope.unnumbered) = typeInScopes n scopes := by
  induction scopes with
  | nil => rfl
  | cons s outer ih =>
    rw [List.map_cons, typeInScopes, typeInScopes, ih]
    rfl

theorem fieldInScopes_unnumbered (file : FileScope) (n : Name) (scopes : List TypeScope) :
    fieldInScopes file n (scopes.map TypeScope.unnumbered) =
      (fieldInScopes file n scopes).map FieldRef.unnumbered := by
  induction scopes with
  | nil => rfl
  | cons s outer ih =>
    rw [List.map_cons, fieldInScopes, fieldInScopes, ih]
    have hsame : s.unnumbered.field? n = s.field? n := rfl
    rw [hsame]
    cases s.field? n with
    | none => rfl
    | some f => rfl

theorem map_eq_map {α β : Type} {f : α → β} {x y : Option α} (h : x.map f = y.map f) :
    (x = none ∧ y = none) ∨ ∃ a b, x = some a ∧ y = some b ∧ f a = f b := by
  cases x with
  | none =>
    cases y with
    | none => exact .inl ⟨rfl, rfl⟩
    | some b => cases h
  | some a =>
    cases y with
    | none => cases h
    | some b => exact .inr ⟨a, b, rfl, rfl, Option.some.inj h⟩

theorem findSome?_congr {α β : Type} {f g : α → Option β} {as : List α} (h : ∀ a ∈ as, f a = g a) :
    as.findSome? f = as.findSome? g := by
  induction as with
  | nil => rfl
  | cons a rest ih =>
    rw [List.findSome?_cons, List.findSome?_cons, h a List.mem_cons_self,
      ih fun b hb => h b (List.mem_cons_of_mem a hb)]

namespace Program

/-- The scopes around a place come first, then the types from which the name is imported, then those
from which all names are. -/
theorem field?_eq (p : Program) (site : Site) (n : Name) :
    p.field? site n =
      (fieldInScopes site.file n site.scopes).or
        ((((FileScope.lookupLast n site.file.staticImports).toList ++
          site.file.staticOnDemandImports).findSome? fun owner =>
            (p.type? owner).bind fun t => t.field? n)) := by
  unfold field?
  cases fieldInScopes site.file n site.scopes with
  | some f => rfl
  | none =>
    cases FileScope.lookupLast n site.file.staticImports with
    | none => rfl
    | some owner =>
      simp only [Option.toList_some, List.singleton_append, List.findSome?_cons, Option.none_or]
      have himported : (do
          let owner ← some owner
          let t ← p.type? owner
          t.field? n) = (p.type? owner).bind fun t => t.field? n := rfl
      rw [himported]
      cases (p.type? owner).bind fun t => t.field? n with
      | none => rfl
      | some f => rfl

/-- Two programs know the same names, and their types of each name differ in numbers only. -/
structure Agrees (p q : Program) : Prop where
  known : p.known = q.known
  types : ∀ n, (p.type? n).map DeclaredType.unnumbered = (q.type? n).map DeclaredType.unnumbered

/-- Two programs know the same names, and their types of each name in question differ in numbers
only. -/
structure AgreesOn (ask : Name → Prop) (p q : Program) : Prop where
  known : p.known = q.known
  types : ∀ n, ask n →
    (p.type? n).map DeclaredType.unnumbered = (q.type? n).map DeclaredType.unnumbered

theorem Agrees.on {p q : Program} (h : p.Agrees q) : AgreesOn (fun _ => True) p q :=
  ⟨h.known, fun n _ => h.types n⟩

namespace AgreesOn

variable {ask : Name → Prop} {p q : Program} {site site' : Site}

theorem declares (h : AgreesOn ask p q) {n : Name} (hn : ask n) : p.declares n = q.declares n := by
  unfold Program.declares
  rw [← Option.isSome_map (f := DeclaredType.unnumbered), h.types n hn, Option.isSome_map]

theorem typeAround (h : AgreesOn ask p q) {file : FileScope} {n : Name}
    (hn : ∀ k ∈ file.around n, ask k) : p.typeAround file n = q.typeAround file n := by
  have hpackage : p.declares (Name.within file.package n) =
      q.declares (Name.within file.package n) :=
    h.declares (hn _ List.mem_cons_self)
  have hdemand : ((file.onDemandImports.map fun package => Text.join [package, ".", n]).find?
      fun c => p.declares c || p.known.contains c) =
        (file.onDemandImports.map fun package => Text.join [package, ".", n]).find?
          fun c => q.declares c || q.known.contains c := by
    apply List.find?_congr
    intro c hc
    rw [h.declares (hn c (List.mem_cons_of_mem _ hc)), h.known]
  unfold Program.typeAround
  simp only [hpackage, hdemand]

theorem simpleType? (h : AgreesOn ask p q) (hsite : site.unnumbered = site'.unnumbered) {n : Name}
    (hn : ∀ k ∈ site.file.around n, ask k) : p.simpleType? site n = q.simpleType? site' n := by
  have hfile : site.file = site'.file := Site.file_eq hsite
  have hscopes : typeInScopes n site.scopes = typeInScopes n site'.scopes := by
    rw [← typeInScopes_unnumbered, Site.scopes_eq hsite, typeInScopes_unnumbered]
  unfold Program.simpleType?
  rw [hscopes, h.typeAround hn, hfile]

theorem resolveType (h : AgreesOn ask p q) (hsite : site.unnumbered = site'.unnumbered) {n : Name}
    (hn : ∀ k ∈ site.file.around (Name.head n), ask k) :
    p.resolveType site n = q.resolveType site' n := by
  have hfile : site.file = site'.file := Site.file_eq hsite
  have hsimple := h.simpleType? hsite hn
  unfold Name.head at hsimple
  unfold Program.resolveType
  cases hsplit : Text.splitFirst '.' n with
  | none =>
    rw [hsplit] at hsimple
    simp only [hsimple, hfile]
  | some parts =>
    obtain ⟨head, rest⟩ := parts
    rw [hsplit] at hsimple
    simp only [hsimple, hfile]

theorem typeName (h : AgreesOn ask p q) (hsite : site.unnumbered = site'.unnumbered)
    {type : Java.TypeUse} (htype : type.Meets (p.asks ask site)) :
    p.typeName site type = q.typeName site' type := by
  induction type with
  | named name =>
    cases name with
    | error e => rfl
    | ok n => exact congrArg Except.ok (h.resolveType hsite (htype n rfl))
  | other text => rfl
  | array element n ih => rw [Program.typeName, Program.typeName, ih htype]

theorem fieldOfType (h : AgreesOn ask p q) {owner : Name} (howner : ask owner) (n : Name) :
    ((p.type? owner).bind fun t => t.field? n).map FieldRef.unnumbered =
      ((q.type? owner).bind fun t => t.field? n).map FieldRef.unnumbered := by
  rcases map_eq_map (h.types owner howner) with ⟨hp, hq⟩ | ⟨t, u, hp, hq, htu⟩
  · rw [hp, hq]
  · rw [hp, hq, Option.bind_some, Option.bind_some, ← DeclaredType.field?_unnumbered, htu,
      DeclaredType.field?_unnumbered]

theorem fieldOf? (h : AgreesOn ask p q) (hsite : site.unnumbered = site'.unnumbered) {owner : Name}
    (howner : (p.asks ask site).owner owner) (n : Name) :
    (p.fieldOf? site owner n).map FieldRef.unnumbered =
      (q.fieldOf? site' owner n).map FieldRef.unnumbered := by
  unfold Program.fieldOf?
  rw [← h.resolveType hsite howner.1]
  exact h.fieldOfType howner.2 n

theorem field? (h : AgreesOn ask p q) (hsite : site.unnumbered = site'.unnumbered) {n : Name}
    (hn : ∀ k ∈ site.file.owners n, ask k) :
    (p.field? site n).map FieldRef.unnumbered = (q.field? site' n).map FieldRef.unnumbered := by
  have hscopes : (fieldInScopes site.file n site.scopes).map FieldRef.unnumbered =
      (fieldInScopes site'.file n site'.scopes).map FieldRef.unnumbered := by
    rw [← fieldInScopes_unnumbered, ← fieldInScopes_unnumbered, Site.file_eq hsite,
      Site.scopes_eq hsite]
  have himported {owners : List Name} (howners : ∀ k ∈ owners, ask k) :
      (owners.findSome? fun owner => (p.type? owner).bind fun t => t.field? n).map
          FieldRef.unnumbered =
        (owners.findSome? fun owner => (q.type? owner).bind fun t => t.field? n).map
          FieldRef.unnumbered := by
    rw [List.map_findSome?, List.map_findSome?]
    exact findSome?_congr fun owner hmem => h.fieldOfType (howners owner hmem) n
  rw [field?_eq, field?_eq, Option.map_or, Option.map_or, hscopes, ← Site.file_eq hsite]
  exact congrArg _ (himported hn)

variable {f f' : FieldRef} {v v' : FieldRef → Except EvalError (Option Constant)}

theorem fieldTypeName (h : AgreesOn ask p q) (hf : f.unnumbered = f'.unnumbered)
    (hconfined : p.ConfinedField ask f) : p.fieldTypeName f = q.fieldTypeName f' := by
  unfold Program.fieldTypeName
  rw [FieldRef.ownerName_eq hf, ← FieldRef.field_eq hf]
  cases htype : f.field.type with
  | none => rfl
  | some type => simp only [h.typeName (FieldRef.site_eq hf) (hconfined.type type htype)]

theorem evaluate (h : AgreesOn ask p q)
    (hv : ∀ g ∈ p.fields, ∀ g', g.unnumbered = g'.unnumbered → v g = v' g')
    (hsite : site.unnumbered = site'.unnumbered) (hhere : p.HasSite site) {e : Java.Expr}
    (he : e.Meets (p.asks ask site)) : p.evaluate v site e = q.evaluate v' site' e := by
  induction e with
  | string | character | integer | boolean | other => rfl
  | paren inner ih => exact ih he
  | plus left right ihl ihr => rw [Program.evaluate, Program.evaluate, ihl he.1, ihr he.2]
  | unary op operand ih => rw [Program.evaluate, Program.evaluate, ih he]
  | name n =>
    rw [Program.evaluate, Program.evaluate]
    rcases map_eq_map (h.field? hsite he) with ⟨hp, hq⟩ | ⟨g, g', hp, hq, hg⟩
    · rw [hp, hq]
    · rw [hp, hq]
      exact hv g (hhere.mem_fields hp) g' hg
  | field owner n =>
    cases owner with
    | error err => rfl
    | ok owner =>
      simp only [Program.evaluate, written, pure_bind]
      rcases map_eq_map (h.fieldOf? hsite (he owner rfl) n) with ⟨hp, hq⟩ | ⟨g, g', hp, hq, hg⟩
      · rw [hp, hq]
      · rw [hp, hq]
        exact hv g (mem_fields_of_fieldOf? hp) g' hg

theorem declaredConstant (h : AgreesOn ask p q)
    (hv : ∀ g ∈ p.fields, ∀ g', g.unnumbered = g'.unnumbered → v g = v' g')
    (hf : f.unnumbered = f'.unnumbered) (hhere : p.HasSite f.site)
    (hconfined : p.ConfinedField ask f) :
    p.declaredConstant v f = q.declaredConstant v' f' := by
  unfold Program.declaredConstant
  rw [h.fieldTypeName hf hconfined, ← FieldRef.field_eq hf]
  cases hinitializer : f.field.initializer with
  | none => rfl
  | some e =>
    simp only [h.evaluate hv (FieldRef.site_eq hf) hhere (hconfined.initializer e hinitializer)]

theorem constantTo (h : AgreesOn ask p q) (hp : p.WellScoped) (hconfined : p.Confined ask) (n : Nat)
    (hmem : f ∈ p.fields) (hf : f.unnumbered = f'.unnumbered) :
    p.constantTo n f = q.constantTo n f' := by
  induction n generalizing f f' with
  | zero => rfl
  | succ n ih =>
    exact h.declaredConstant (fun g hg g' hsame => ih hg hsame) hf (hp.hasSite_of_mem hmem)
      (hconfined.field hmem)

theorem evaluateTo (h : AgreesOn ask p q) (hp : p.WellScoped) (hconfined : p.Confined ask) (n : Nat)
    (hsite : site.unnumbered = site'.unnumbered) (hhere : p.HasSite site) {e : Java.Expr}
    (he : e.Meets (p.asks ask site)) : p.evaluateTo n site e = q.evaluateTo n site' e :=
  h.evaluate (fun _ hg _ hsame => h.constantTo hp hconfined n hg hsame) hsite hhere he

end AgreesOn

end Program

end LookupGen
