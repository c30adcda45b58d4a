import LookupGen.Proofs.Program.Origins
import LookupGen.Proofs.Program.Placed

/-!
# The elements of a declared type

What a type comes to: its own element with a field for each field of the type, before it an element
for each annotated field, and after it one for each annotated method or constructor. None of them
depends on what was evaluated before.

This module does NOT say that a program can be evaluated.
-/

namespace LookupGen

open EvalM (answer after)
open Java (Modifiers)

namespace EvalM

variable {α β : Type} {I : EvalState → Prop} {P : α → Prop} {Q : β → Prop}

/-- If an evaluation gives something, it has a property, and what is remembered is right again. -/
def Ensures (I : EvalState → Prop) (P : α → Prop) (x : EvalM α) : Prop :=
  ∀ s, I s → ∀ a, answer x s = .ok a → P a ∧ I (after x s)

theorem ensures_pure {a : α} (h : P a) : Ensures I P (pure a) := by
  intro s hs b hb
  obtain rfl := Except.ok.inj hb
  exact ⟨h, hs⟩

theorem ensures_bind {x : EvalM α} {k : α → EvalM β} (hx : Ensures I P x)
    (hk : ∀ a, P a → Ensures I Q (k a)) : Ensures I Q (x >>= k) := by
  intro s hs b hb
  cases hanswer : answer x s with
  | error e =>
    rw [answer_bind_error hanswer] at hb
    cases hb
  | ok a =>
    obtain ⟨ha, hafter⟩ := hx s hs a hanswer
    rw [answer_bind_ok hanswer] at hb
    rw [after_bind_ok hanswer]
    exact hk a ha _ hafter b hb

theorem ensures_written (w : Java.Written) : Ensures I (fun t => w = .ok t) (written w) := by
  cases w with
  | ok t => exact ensures_pure rfl
  | error e => exact fun s _ a ha => by cases ha

theorem ensures_mapM {f : α → EvalM β} {R : α → β → Prop} {as : List α}
    (h : ∀ a ∈ as, Ensures I (R a) (f a)) : Ensures I (List.Forall₂ R as) (as.mapM f) := by
  induction as with
  | nil => exact ensures_pure .nil
  | cons a rest ih =>
    obtain ⟨hfirst, hrest⟩ := List.forall_mem_cons.mp h
    rw [List.mapM_cons]
    refine ensures_bind hfirst fun b hb => ensures_bind (ih hrest) fun bs hbs => ?_
    exact ensures_pure (.cons hb hbs)

end EvalM

open EvalM (Ensures ensures_pure ensures_bind ensures_written ensures_mapM)

theorem Program.ensures_of_alike {α : Type} {p : Program} {x : EvalM α} (h : p.Alike p x x) :
    Ensures (p.Remembers []) (fun a => answer x .empty = .ok a) x := by
  intro s hs a ha
  obtain ⟨hanswer, hafter, -⟩ := h s .empty hs remembers_empty
  exact ⟨hanswer.symm.trans ha, hafter⟩

def Java.Modifiers.isAnnotated (m : Modifiers) : Bool := !m.annotations.isEmpty

/-- The elements that one type comes to. -/
structure Block where
  fields : List Element
  own : Element
  methods : List Element

def Block.elements (b : Block) : List Element := b.fields ++ b.own :: b.methods

namespace Program

variable {p : Program} {u : DeclaredType} {t : Placed}

/-- The field of a type element, as its declaration has it: its name, the name of its type, and the
value of its constant if it has one. -/
structure FieldMirrors (p : Program) (u : DeclaredType) (f : FieldDecl) (e : Field) : Prop where
  name : e.name = f.name
  type : p.fieldTypeName ⟨u.site, u.scope, f⟩ = .ok e.type
  constant : ∃ c, p.alone ⟨u.site, u.scope, f⟩ = .ok c ∧ e.constant = c.map Constant.value

structure MemberMirrors (p : Program) (u : DeclaredType) (t : Placed) (kind : Kind) (name : Name)
    (m : Modifiers) (line : Nat) (e : Element) : Prop where
  kind : e.kind = kind
  name : e.name = Text.join [t.qualifiedName, ".", name]
  nested : e.nested = true
  fields : e.fields = []
  origin : e.origin = some (Text.join [t.path, ":", Text.ofNat line])
  annotations : answer (p.annotations u.site m) .empty = .ok e.annotations

/-- What a declared type comes to: its block of elements. -/
structure BlockMirrors (p : Program) (u : DeclaredType) (t : Placed) (b : Block) : Prop where
  kind : b.own.kind = .type t.kind
  name : b.own.name = t.qualifiedName
  nested : b.own.nested = !t.around.isEmpty
  origin : b.own.origin = some (Text.join [t.path, ":", Text.ofNat t.line])
  annotations : answer (p.annotations u.outerSite t.modifiers) .empty = .ok b.own.annotations
  fields : List.Forall₂ (p.FieldMirrors u) t.fields b.own.fields
  before : List.Forall₂ (fun f => p.MemberMirrors u t .field f.name f.modifiers f.line)
    (t.fields.filter fun f => f.modifiers.isAnnotated) b.fields
  after : List.Forall₂ (fun m => p.MemberMirrors u t m.kind m.name m.modifiers m.line)
    (t.methods.filter fun m => m.modifiers.isAnnotated) b.methods

theorem forall_right {α : Type} {P : Element → Prop} {as : List α} {es : List Element}
    (h : List.Forall₂ (fun _ e => P e) as es) : ∀ e ∈ es, P e := by
  induction h with
  | nil => exact fun e he => absurd he List.not_mem_nil
  | cons hfirst _ ih => exact List.forall_mem_cons.mpr ⟨hfirst, ih⟩

theorem BlockMirrors.filter_elements {b : Block} (h : p.BlockMirrors u t b)
    (hmethods : ∀ m ∈ t.methods, m.kind = .method ∨ m.kind = .constructor) {c : Element → Bool}
    (hc : ∀ e, e.kind.isType = false → c e = false) :
    b.elements.filter c = if c b.own = true then [b.own] else [] := by
  have hfields : ∀ e ∈ b.fields, c e = false := by
    refine forall_right (h.before.imp fun f e he => hc e ?_)
    rw [he.kind]
    rfl
  have hafter : ∀ e ∈ b.methods, c e = false := by
    have hselected : ∀ m ∈ t.methods.filter fun m => m.modifiers.isAnnotated,
        m.kind = .method ∨ m.kind = .constructor :=
      fun m hm => hmethods m (List.mem_of_mem_filter hm)
    refine forall_right (((List.forall₂_and_left _ _).mpr ⟨hselected, h.after⟩).imp ?_)
    rintro m e ⟨hkind, he⟩
    apply hc
    rw [he.kind]
    rcases hkind with hkind | hkind <;> rw [hkind] <;> rfl
  have hnone {es : List Element} (hes : ∀ e ∈ es, c e = false) : es.filter c = [] :=
    List.filter_eq_nil_iff.mpr fun e he => Bool.not_eq_true _ ▸ hes e he
  unfold Block.elements
  rw [List.filter_append, hnone hfields, List.nil_append, List.filter_cons, hnone hafter]

def OneIf (c : Bool) (P : Element → Prop) (es : List Element) : Prop :=
  if c then ∃ e, es = [e] ∧ P e else es = []

theorem forall₂_filter {α : Type} {c : α → Bool} {R : α → Element → Prop} {as : List α}
    {ess : List (List Element)} (h : List.Forall₂ (fun a => OneIf (c a) (R a)) as ess) :
    List.Forall₂ R (as.filter c) ess.flatten := by
  induction h with
  | nil => exact .nil
  | @cons a es as ess hfirst _ ih =>
    unfold OneIf at hfirst
    rw [List.filter_cons, List.flatten_cons]
    split at hfirst
    · rename_i hc
      obtain ⟨e, rfl, he⟩ := hfirst
      rw [if_pos hc]
      exact .cons he ih
    · rename_i hc
      rw [if_neg hc, hfirst]
      exact ih

theorem EvalM.length_of_mapM {α β : Type} {f : α → EvalM β} {as : List α} {s : EvalState}
    {bs : List β} (h : answer (as.mapM f) s = .ok bs) : bs.length = as.length := by
  have hall : Ensures (fun _ => True) (List.Forall₂ (fun _ _ => True) as) (as.mapM f) :=
    ensures_mapM fun a _ s _ b _ => ⟨trivial, trivial⟩
  exact (hall s trivial bs h).1.length_eq.symm

theorem ensures_annotations (hp : p.WellScoped) {site : Site} (hsite : p.HasSite site)
    {m : Modifiers} (hm : m.Meets (p.asks (fun _ => True) site)) :
    Ensures (p.Remembers []) (fun as => answer (p.annotations site m) .empty = .ok as)
      (p.annotations site m) :=
  ensures_of_alike ((Twins.refl hp).on.annotations ⟨hsite, hsite, rfl⟩ hm)

theorem isEmpty_of_annotations {site : Site} {m : Modifiers} {as : List AnnotationData}
    (h : answer (p.annotations site m) .empty = .ok as) : as.isEmpty = !m.isAnnotated := by
  have hlength := EvalM.length_of_mapM h
  unfold Java.Modifiers.isAnnotated
  rw [Bool.not_not, Bool.eq_iff_iff, List.isEmpty_iff_length_eq_zero, hlength,
    List.isEmpty_iff_length_eq_zero]

theorem ensures_fieldElements (hp : p.WellScoped) (hu : u ∈ p.types) (hstands : u.Stands t)
    {f : FieldDecl} (hf : f ∈ u.scope.fields) :
    Ensures (p.Remembers []) (fun r => p.FieldMirrors u f r.1 ∧
      OneIf f.modifiers.isAnnotated (p.MemberMirrors u t .field f.name f.modifiers f.line) r.2)
      (p.fieldElements ⟨u.site, u.scope, f⟩) := by
  have hmem : (⟨u.site, u.scope, f⟩ : FieldRef) ∈ p.fields :=
    mem_fields_iff.mpr ⟨u, hu, hf, rfl, rfl⟩
  have hconfined := (confined_of_all p).field hmem
  unfold fieldElements
  refine ensures_bind (ensures_of_alike ((Twins.refl hp).on.constant hmem hmem rfl)) fun c hc => ?_
  refine ensures_bind (ensures_written _) fun type htype => ?_
  refine ensures_bind (ensures_annotations hp (hp.hasSite_site hu) hconfined.modifiers) ?_
  intro as has
  refine ensures_pure ⟨⟨rfl, htype, c, hc, rfl⟩, ?_⟩
  unfold OneIf
  simp only [isEmpty_of_annotations has]
  cases f.modifiers.isAnnotated with
  | false => rfl
  | true =>
    refine ⟨_, rfl, rfl, ?_, rfl, rfl, ?_, has⟩
    · rw [← hstands.name]
      rfl
    · rw [← hstands.path]
      rfl

theorem ensures_methodElements (hp : p.WellScoped) (hu : u ∈ p.types) (hstands : u.Stands t)
    {m : MethodDecl} (hm : m ∈ u.methods) :
    Ensures (p.Remembers []) (OneIf m.modifiers.isAnnotated
      (p.MemberMirrors u t m.kind m.name m.modifiers m.line)) (p.methodElements u m) := by
  have hconfined := (confined_of_all p u hu).methods m hm
  unfold methodElements
  refine ensures_bind (ensures_annotations hp (hp.hasSite_site hu) hconfined) fun as has => ?_
  apply ensures_pure
  unfold OneIf
  simp only [isEmpty_of_annotations has]
  cases m.modifiers.isAnnotated with
  | false => rfl
  | true =>
    refine ⟨_, rfl, rfl, ?_, rfl, rfl, ?_, has⟩
    · rw [← hstands.name]
    · rw [← hstands.path]
      rfl

theorem ensures_typeElements (hp : p.WellScoped) (hu : u ∈ p.types) (hstands : u.Stands t) :
    Ensures (p.Remembers []) (fun es => ∃ b, es = b.elements ∧ p.BlockMirrors u t b)
      (p.typeElements u) := by
  have hsite : p.HasSite u.outerSite := hp.scopes u hu
  unfold typeElements DeclaredType.fieldRefs
  rw [List.mapM_map]
  refine ensures_bind (ensures_mapM fun f hf => ensures_fieldElements hp hu hstands hf) ?_
  intro fields hfields
  refine ensures_bind (ensures_annotations hp hsite (confined_of_all p u hu).modifiers) ?_
  intro as has
  refine ensures_bind (ensures_mapM fun m hm => ensures_methodElements hp hu hstands hm) ?_
  intro methods hmethods
  rw [hstands.fields] at hfields
  rw [hstands.methods] at hmethods
  rw [hstands.modifiers] at has
  refine ensures_pure ⟨⟨fields.flatMap (·.2), _, methods.flatten⟩, rfl, ?_⟩
  refine ⟨?_, hstands.name, ?_, ?_, has, ?_, ?_, forall₂_filter hmethods⟩
  · exact congrArg Kind.type hstands.kind
  · have haround : u.enclosing.isEmpty = t.around.isEmpty := by
      rw [← List.isEmpty_map, hstands.around, List.isEmpty_reverse]
    exact congrArg not haround
  · rw [← hstands.path, ← hstands.line]
    rfl
  · exact List.forall₂_map_right_iff.mpr (hfields.imp fun _ _ h => h.1)
  · rw [List.flatMap_def]
    exact forall₂_filter (List.forall₂_map_right_iff.mpr (hfields.imp fun _ _ h => h.2))

def Mirrors (p : Program) (t : Placed) (b : Block) : Prop :=
  ∃ u ∈ p.types, u.Stands t ∧ p.BlockMirrors u t b

theorem exists_blocks (hp : p.WellScoped) {us : List DeclaredType} {ts : List Placed}
    (hus : ∀ u ∈ us, u ∈ p.types) (hstands : List.Forall₂ DeclaredType.Stands us ts)
    {all : List (List Element)} (h : us.mapM p.typeAnswer = .ok all) :
    ∃ blocks, all = blocks.map Block.elements ∧ List.Forall₂ p.Mirrors ts blocks := by
  induction hstands generalizing all with
  | nil =>
    obtain rfl := Except.ok.inj h
    exact ⟨[], rfl, .nil⟩
  | @cons u t us ts hfirst _ ih =>
    obtain ⟨hu, hrest⟩ := List.forall_mem_cons.mp hus
    rw [List.mapM_cons] at h
    obtain ⟨es, hes, hmore⟩ := bind_eq_ok.mp h
    obtain ⟨more, hall, hpure⟩ := bind_eq_ok.mp hmore
    obtain rfl := Except.ok.inj hpure
    obtain ⟨⟨b, rfl, hb⟩, -⟩ := ensures_typeElements hp hu hfirst .empty remembers_empty es hes
    obtain ⟨blocks, rfl, hblocks⟩ := ih hrest hall
    exact ⟨b :: blocks, rfl, .cons ⟨u, hu, hfirst, hb⟩ hblocks⟩

theorem exists_blocks_of_elements (hp : p.WellScoped) {ts : List Placed}
    (hstands : List.Forall₂ DeclaredType.Stands p.types ts) {es : List Element}
    (h : answer p.elements .empty = .ok es) :
    ∃ blocks, es = blocks.flatMap Block.elements ∧ List.Forall₂ p.Mirrors ts blocks := by
  rw [answer_elements hp] at h
  obtain ⟨all, hall, rfl⟩ := map_eq_ok.mp h
  obtain ⟨blocks, rfl, hblocks⟩ := exists_blocks hp (fun u hu => hu) hstands hall
  exact ⟨blocks, (List.flatMap_def ..).symm, hblocks⟩

end Program

end LookupGen
