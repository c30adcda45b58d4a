import LookupGen.Program.Elements
import LookupGen.Proofs.Program.Numbering
import Mathlib.Data.List.Forall2

/-!
# Programs that differ in numbers only

Two runs, one in each of two programs whose types differ in numbers only, those that the first one
never looks for apart. Whatever either has in its memory, the elements of a type are the same in
both, or cannot be given for the same reason.
-/

namespace LookupGen

open EvalM (answer after)
open Java (AnnotationUse ElementValue Modifiers)

namespace Program

/-- Two well-scoped programs that know the same names and have the same types, numbers aside. -/
structure Twins (p q : Program) : Prop where
  left : p.WellScoped
  right : q.WellScoped
  agrees : p.Agrees q

/-- Two well-scoped programs that have the same types of all names in question, numbers aside. The
first one looks for no other names. -/
structure TwinsOn (ask : Name → Prop) (p q : Program) : Prop where
  left : p.WellScoped
  right : q.WellScoped
  agrees : AgreesOn ask p q
  confined : p.Confined ask

theorem Twins.on {p q : Program} (h : p.Twins q) : TwinsOn (fun _ => True) p q :=
  ⟨h.left, h.right, h.agrees.on, confined_of_all p⟩

/-- Two evaluations, one in each program, keep the memories right and answer the same from all right
memories. -/
def Alike {α : Type} (p q : Program) (x y : EvalM α) : Prop :=
  ∀ s s', p.Remembers [] s → q.Remembers [] s' →
    answer x s = answer y s' ∧ p.Remembers [] (after x s) ∧ q.Remembers [] (after y s')

variable {α β γ : Type} {p q : Program}

theorem alike_pure (a : α) : p.Alike q (pure a) (pure a) := fun _ _ hs hs' => ⟨rfl, hs, hs'⟩

theorem alike_written (w : Java.Written) : p.Alike q (written w) (written w) := by
  cases w with
  | ok t => exact alike_pure t
  | error e => exact fun _ _ hs hs' => ⟨rfl, hs, hs'⟩

theorem alike_bind {x y : EvalM α} {k l : α → EvalM β} (hx : p.Alike q x y)
    (hk : ∀ a, p.Alike q (k a) (l a)) : p.Alike q (x >>= k) (y >>= l) := by
  intro s s' hs hs'
  obtain ⟨hanswer, hafter, hafter'⟩ := hx s s' hs hs'
  cases hleft : answer x s with
  | error e =>
    have hright := hanswer.symm.trans hleft
    rw [EvalM.answer_bind_error hleft, EvalM.answer_bind_error hright,
      EvalM.after_bind_error hleft, EvalM.after_bind_error hright]
    exact ⟨rfl, hafter, hafter'⟩
  | ok a =>
    have hright := hanswer.symm.trans hleft
    rw [EvalM.answer_bind_ok hleft, EvalM.answer_bind_ok hright, EvalM.after_bind_ok hleft,
      EvalM.after_bind_ok hright]
    exact hk a _ _ hafter hafter'

theorem alike_mapM {f : α → EvalM β} {g : γ → EvalM β} {as : List α} {cs : List γ}
    (h : List.Forall₂ (fun a c => p.Alike q (f a) (g c)) as cs) :
    p.Alike q (as.mapM f) (cs.mapM g) := by
  induction h with
  | nil => exact alike_pure []
  | cons hfirst _ ih =>
    rw [List.mapM_cons, List.mapM_cons]
    apply alike_bind hfirst
    intro b
    apply alike_bind ih
    intro bs
    exact alike_pure (b :: bs)

theorem alike_of_follows {u : Nat → Except EvalError α} {x y : EvalM α}
    (hx : p.Follows [] u x) (hy : q.Follows [] u y) : p.Alike q x y := by
  intro s s' hs hs'
  obtain ⟨hafter, hu⟩ := hx s hs
  obtain ⟨hafter', hu'⟩ := hy s' hs'
  obtain ⟨n, hn, hn'⟩ := (hu.and hu').exists
  exact ⟨hn.symm.trans hn', hafter, hafter'⟩

structure SamePlace (p q : Program) (site site' : Site) : Prop where
  here : p.HasSite site
  there : q.HasSite site'
  same : site.unnumbered = site'.unnumbered

namespace TwinsOn

variable {ask : Name → Prop} {f f' : FieldRef} {site site' : Site}

theorem samePlace (h : TwinsOn ask p q) (hf : f ∈ p.fields) (hf' : f' ∈ q.fields)
    (hsame : f.unnumbered = f'.unnumbered) : p.SamePlace q f.site f'.site :=
  ⟨h.left.hasSite_of_mem hf, h.right.hasSite_of_mem hf', FieldRef.site_eq hsame⟩

theorem constant (h : TwinsOn ask p q) (hf : f ∈ p.fields) (hf' : f' ∈ q.fields)
    (hsame : f.unnumbered = f'.unnumbered) : p.Alike q (p.constant f) (q.constant f') := by
  have hfollows' := constant_follows h.right hf'
  simp only [← h.agrees.constantTo h.left h.confined _ hf hsame] at hfollows'
  exact alike_of_follows (constant_follows h.left hf) hfollows'

theorem constantAt (h : TwinsOn ask p q) (hsite : p.SamePlace q site site') {e : Java.Expr}
    (he : e.Meets (p.asks ask site)) : p.Alike q (p.constantAt site e) (q.constantAt site' e) := by
  have hfollows' := constantAt_follows h.right hsite.there e
  simp only [← h.agrees.evaluateTo h.left h.confined _ hsite.same hsite.here he] at hfollows'
  exact alike_of_follows (constantAt_follows h.left hsite.here e) hfollows'

mutual

theorem elementValue (h : TwinsOn ask p q) (hsite : p.SamePlace q site site') :
    (v : ElementValue) → v.Meets (p.asks ask site) →
      p.Alike q (p.elementValue site v) (q.elementValue site' v)
  | .expression e => by
    unfold Program.elementValue ElementValue.Meets
    intro he
    exact alike_bind (h.constantAt hsite he) fun c => alike_pure _
  | .array items => by
    unfold Program.elementValue ElementValue.Meets
    intro hitems
    exact alike_bind (h.elementValues hsite items hitems) fun values => alike_pure _
  | .annotated (.mk name values) => by
    unfold Program.elementValue ElementValue.Meets
    intro ha
    exact alike_bind (h.annotationData hsite (.mk name values) ha) fun a => alike_pure _

theorem elementValues (h : TwinsOn ask p q) (hsite : p.SamePlace q site site') :
    (vs : List ElementValue) → ElementValue.AllMeet (p.asks ask site) vs →
      p.Alike q (p.elementValues site vs) (q.elementValues site' vs)
  | [] => by
    unfold Program.elementValues
    exact fun _ => alike_pure []
  | v :: rest => by
    unfold Program.elementValues ElementValue.AllMeet
    rintro ⟨hv, hrest⟩
    apply alike_bind (h.elementValue hsite v hv)
    intro value
    exact alike_bind (h.elementValues hsite rest hrest) fun more => alike_pure _

theorem annotationValues (h : TwinsOn ask p q) (hsite : p.SamePlace q site site') :
    (before : List (Name × Value)) → (vs : List (Name × ElementValue)) →
      AnnotationUse.ValuesMeet (p.asks ask site) vs →
      p.Alike q (p.annotationValues site before vs) (q.annotationValues site' before vs)
  | before, [] => by
    unfold Program.annotationValues
    exact fun _ => alike_pure before
  | before, (name, v) :: rest => by
    unfold Program.annotationValues AnnotationUse.ValuesMeet
    rintro ⟨hv, hrest⟩
    exact alike_bind (h.elementValue hsite v hv) fun value => h.annotationValues hsite _ rest hrest

theorem annotationData (h : TwinsOn ask p q) (hsite : p.SamePlace q site site') :
    (a : AnnotationUse) → a.Meets (p.asks ask site) →
      p.Alike q (p.annotationData site a) (q.annotationData site' a)
  | .mk (.error e) values => by
    unfold Program.annotationData
    intro _ s s' hs hs'
    exact ⟨rfl, hs, hs'⟩
  | .mk (.ok name) values => by
    unfold Program.annotationData AnnotationUse.Meets
    rintro ⟨hname, hvalues⟩
    simp only [written, pure_bind]
    apply alike_bind (h.annotationValues hsite [] values hvalues)
    intro values
    rw [h.agrees.resolveType hsite.same (hname name rfl)]
    exact alike_pure _

end

theorem annotations (h : TwinsOn ask p q) (hsite : p.SamePlace q site site') {m : Modifiers}
    (hm : m.Meets (p.asks ask site)) :
    p.Alike q (p.annotations site m) (q.annotations site' m) := by
  unfold Program.annotations
  apply alike_mapM
  exact List.forall₂_same.mpr fun a ha => h.annotationData hsite a (hm a ha)

theorem fieldElements (h : TwinsOn ask p q) (hf : f ∈ p.fields) (hf' : f' ∈ q.fields)
    (hsame : f.unnumbered = f'.unnumbered) :
    p.Alike q (p.fieldElements f) (q.fieldElements f') := by
  have hsite := h.samePlace hf hf' hsame
  have hconfined := h.confined.field hf
  unfold Program.fieldElements
  rw [h.agrees.fieldTypeName hsame hconfined, FieldRef.ownerName_eq hsame,
    ← FieldRef.field_eq hsame, Site.file_eq hsite.same]
  apply alike_bind (h.constant hf hf' hsame)
  intro c
  apply alike_bind (alike_written _)
  intro type
  exact alike_bind (h.annotations hsite hconfined.modifiers) fun annotations => alike_pure _

section Types

variable {t t' : DeclaredType}

theorem samePlace_site (h : TwinsOn ask p q) (ht : t ∈ p.types) (ht' : t' ∈ q.types)
    (hsame : t.unnumbered = t'.unnumbered) : p.SamePlace q t.site t'.site :=
  ⟨h.left.hasSite_site ht, h.right.hasSite_site ht', congrArg DeclaredType.site hsame⟩

theorem samePlace_outerSite (h : TwinsOn ask p q) (ht : t ∈ p.types) (ht' : t' ∈ q.types)
    (hsame : t.unnumbered = t'.unnumbered) : p.SamePlace q t.outerSite t'.outerSite :=
  ⟨h.left.scopes t ht, h.right.scopes t' ht', congrArg DeclaredType.outerSite hsame⟩

theorem fieldRefs (h : TwinsOn ask p q) (ht : t ∈ p.types) (ht' : t' ∈ q.types)
    (hsame : t.unnumbered = t'.unnumbered) :
    List.Forall₂ (fun f f' => p.Alike q (p.fieldElements f) (q.fieldElements f')) t.fieldRefs
      t'.fieldRefs := by
  have hsite := (h.samePlace_site ht ht' hsame).same
  unfold DeclaredType.fieldRefs
  rw [DeclaredType.fields_eq hsame, List.forall₂_map_left_iff, List.forall₂_map_right_iff]
  apply List.forall₂_same.mpr
  intro d hd
  have hd' : d ∈ t.scope.fields := by
    rw [DeclaredType.fields_eq hsame]
    exact hd
  apply h.fieldElements
  · exact mem_fields_iff.mpr ⟨t, ht, hd', rfl, rfl⟩
  · exact mem_fields_iff.mpr ⟨t', ht', hd, rfl, rfl⟩
  · unfold FieldRef.unnumbered
    rw [hsite, DeclaredType.scope_eq hsame]

theorem methodElements (h : TwinsOn ask p q) (hsite : p.SamePlace q t.site t'.site)
    (hname : t.name = t'.name) {m : MethodDecl} (hm : m.modifiers.Meets (p.asks ask t.site)) :
    p.Alike q (p.methodElements t m) (q.methodElements t' m) := by
  have hfile : t.file = t'.file := Site.file_eq hsite.same
  unfold Program.methodElements
  rw [hname, hfile]
  exact alike_bind (h.annotations hsite hm) fun annotations => alike_pure _

theorem typeElements (h : TwinsOn ask p q) (ht : t ∈ p.types) (ht' : t' ∈ q.types)
    (hsame : t.unnumbered = t'.unnumbered) :
    p.Alike q (p.typeElements t) (q.typeElements t') := by
  have hsite := h.samePlace_site ht ht' hsame
  have houter := h.samePlace_outerSite ht ht' hsame
  have hconfined := h.confined t ht
  obtain ⟨hfile, hname, hnested, hkind, hmodifiers, hline, hmethods⟩ :=
    DeclaredType.parts_eq hsame
  unfold Program.typeElements
  rw [hfile, hname, hnested, hkind, ← hmodifiers, hline, ← hmethods]
  apply alike_bind (alike_mapM (h.fieldRefs ht ht' hsame))
  intro fields
  apply alike_bind (h.annotations houter hconfined.modifiers)
  intro annotations
  apply alike_bind (alike_mapM _)
  · intro methods
    exact alike_pure _
  · apply List.forall₂_same.mpr
    intro m hm
    exact h.methodElements hsite hname (hconfined.methods m hm)

end Types

end TwinsOn

end Program

end LookupGen
