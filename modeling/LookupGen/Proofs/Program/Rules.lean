import LookupGen.Proofs.Program.Fields
import Mathlib.Logic.Relation

/-!
# Rules of evaluation

When an expression or a field has a value, as finite derivations: each operand and each field that
is referred to has one first. The rules leave open what literals and operators mean and what a
field makes of the value of its initializer, so that different readings of a program share them.

This module does NOT say how derivations are found, nor in which order.
-/

namespace LookupGen

open Java (Expr UnaryOp)

/-- What the rules of evaluation leave open. `declare` is what a field of a type makes of the value
of its initializer. -/
structure Semantics (V : Type) where
  string : Text → Option V
  character : Text → Option V
  integer : Text → Option V
  boolean : Bool → V
  plus : V → V → Option V
  unary : UnaryOp → V → Option V
  declare : Name → V → Option V

/-- The reading of the evaluation: values are constants, and a field takes over the constant of its
initializer as it is, if constants of its type may be strings just where this one is. -/
def Semantics.reading : Semantics Constant where
  string t := some (stringConstant t)
  character t := some (characterConstant t)
  integer := integerConstant?
  boolean := .boolean
  plus a b := (a.plus b).toOption.join
  unary op a := (applyUnary op a).toOption.join
  declare type c := if Program.mayBeConstant type && Program.fits type c then some c else none

inductive Query where
  | expr (site : Site) (e : Expr)
  | field (f : FieldRef)

namespace Program

variable {V : Type}

/-- `p.Derives σ q v`: by the rules, `q` has the value `v`. -/
inductive Derives (σ : Semantics V) (p : Program) : Query → V → Prop where
  | string {site : Site} {t : Text} {v : V} :
      σ.string t = some v → Derives σ p (.expr site (.string (.ok t))) v
  | character {site : Site} {t : Text} {v : V} :
      σ.character t = some v → Derives σ p (.expr site (.character (.ok t))) v
  | integer {site : Site} {t : Text} {v : V} :
      σ.integer t = some v → Derives σ p (.expr site (.integer (.ok t))) v
  | boolean {site : Site} (b : Bool) : Derives σ p (.expr site (.boolean b)) (σ.boolean b)
  | paren {site : Site} {e : Expr} {v : V} :
      Derives σ p (.expr site e) v → Derives σ p (.expr site (.paren e)) v
  | plus {site : Site} {left right : Expr} {a b v : V} :
      Derives σ p (.expr site left) a → Derives σ p (.expr site right) b →
      σ.plus a b = some v → Derives σ p (.expr site (.plus left right)) v
  | unary {site : Site} {op : UnaryOp} {e : Expr} {a v : V} :
      Derives σ p (.expr site e) a → σ.unary op a = some v →
      Derives σ p (.expr site (.unary op e)) v
  | name {site : Site} {n : Name} {f : FieldRef} {v : V} :
      p.field? site n = some f → Derives σ p (.field f) v → Derives σ p (.expr site (.name n)) v
  | qualified {site : Site} {owner n : Name} {f : FieldRef} {v : V} :
      p.fieldOf? site owner n = some f → Derives σ p (.field f) v →
      Derives σ p (.expr site (.field (.ok owner) n)) v
  | field {f : FieldRef} {e : Expr} {type : Name} {a v : V} :
      f.field.isFinal = true → f.field.dimensions = 0 → f.field.initializer = some e →
      p.fieldTypeName f = .ok type → Derives σ p (.expr f.site e) a →
      σ.declare type a = some v → Derives σ p (.field f) v

def refs (p : Program) (site : Site) : Expr → List FieldRef
  | .paren inner => refs p site inner
  | .plus left right => refs p site left ++ refs p site right
  | .unary _ operand => refs p site operand
  | .name n => (p.field? site n).toList
  | .field (.ok owner) n => (p.fieldOf? site owner n).toList
  | _ => []

/-- `p.Uses f g`: the initializer of `f` refers to `g`. -/
def Uses (p : Program) (f g : FieldRef) : Prop :=
  ∃ e, f.field.initializer = some e ∧ g ∈ p.refs f.site e

/-- From a field one can only go on finitely often to fields that it uses. -/
def Grounded (p : Program) (f : FieldRef) : Prop := Acc (Function.swap p.Uses) f

theorem Grounded.of_uses {p : Program} {f g : FieldRef} (hf : p.Grounded f)
    (h : Relation.ReflTransGen p.Uses f g) : p.Grounded g := by
  induction h with
  | refl => exact hf
  | tail _ huse ih => exact ih.inv huse

theorem HasSite.mem_fields_of_mem_refs {p : Program} {site : Site} (hsite : p.HasSite site)
    {e : Expr} {g : FieldRef} (hg : g ∈ p.refs site e) : g ∈ p.fields := by
  induction e with
  | string | character | integer | boolean | other => simp [refs] at hg
  | paren inner ih | unary _ inner ih => exact ih hg
  | plus left right ihl ihr =>
    rcases List.mem_append.mp hg with hg | hg
    · exact ihl hg
    · exact ihr hg
  | name n => exact hsite.mem_fields (Option.mem_toList.mp hg)
  | field owner n =>
    cases owner with
    | error e => simp [refs] at hg
    | ok owner => exact mem_fields_of_fieldOf? (Option.mem_toList.mp hg)

theorem WellScoped.mem_fields_of_uses {p : Program} (hp : p.WellScoped) {f g : FieldRef}
    (hf : f ∈ p.fields) (h : Relation.ReflTransGen p.Uses f g) : g ∈ p.fields := by
  induction h with
  | refl => exact hf
  | tail _ huse ih =>
    obtain ⟨e, -, hg⟩ := huse
    exact (hp.hasSite_of_mem ih).mem_fields_of_mem_refs hg

variable {σ : Semantics V} {p : Program}

theorem Derives.grounded_aux {q : Query} {v : V} (h : p.Derives σ q v) :
    match q with
    | .expr site e => ∀ g ∈ p.refs site e, p.Grounded g
    | .field f => p.Grounded f := by
  induction h with
  | string | character | integer | boolean => intro g hg; simp [refs] at hg
  | paren _ ih => exact ih
  | plus _ _ _ ihl ihr =>
    intro g hg
    cases List.mem_append.mp hg with
    | inl h => exact ihl g h
    | inr h => exact ihr g h
  | unary _ _ ih => exact ih
  | name hf _ ih | qualified hf _ ih =>
    intro g hg
    simp only [refs, hf, Option.toList_some, List.mem_singleton] at hg
    exact hg ▸ ih
  | field _ _ hinit _ _ _ ih =>
    refine Acc.intro _ ?_
    rintro g ⟨e, he, hg⟩
    obtain rfl := Option.some.inj (hinit.symm.trans he)
    exact ih g hg

theorem Derives.grounded {f : FieldRef} {v : V} (h : p.Derives σ (.field f) v) : p.Grounded f :=
  h.grounded_aux

theorem Derives.of_mem_refs {site : Site} {e : Expr} {v : V} (h : p.Derives σ (.expr site e) v)
    {g : FieldRef} (hg : g ∈ p.refs site e) : ∃ w, p.Derives σ (.field g) w := by
  induction e generalizing v with
  | string | character | integer | boolean | other => simp [refs] at hg
  | paren inner ih =>
    cases h with
    | paren h => exact ih h hg
  | plus left right ihl ihr =>
    cases h with
    | plus hl hr _ =>
      cases List.mem_append.mp hg with
      | inl hg => exact ihl hl hg
      | inr hg => exact ihr hr hg
  | unary op operand ih =>
    cases h with
    | unary h _ => exact ih h hg
  | name n =>
    cases h with
    | name hf h =>
      simp only [refs, hf, Option.toList_some, List.mem_singleton] at hg
      exact ⟨v, hg ▸ h⟩
  | field owner n =>
    cases h with
    | qualified hf h =>
      simp only [refs, hf, Option.toList_some, List.mem_singleton] at hg
      exact ⟨v, hg ▸ h⟩

theorem Derives.of_uses {f g : FieldRef} {v : V} (h : p.Derives σ (.field f) v)
    (hfg : Relation.ReflTransGen p.Uses f g) : ∃ w, p.Derives σ (.field g) w := by
  induction hfg with
  | refl => exact ⟨v, h⟩
  | tail _ huse ih =>
    obtain ⟨w, hw⟩ := ih
    obtain ⟨e, he, hg⟩ := huse
    cases hw with
    | field _ _ hinit _ hexpr _ =>
      obtain rfl := Option.some.inj (hinit.symm.trans he)
      exact hexpr.of_mem_refs hg

theorem Derives.unique {q : Query} {v w : V} (hv : p.Derives σ q v) (hw : p.Derives σ q w) :
    v = w := by
  induction hv generalizing w with
  | string h | character h | integer h =>
    cases hw with
    | _ h' => exact Option.some.inj (h.symm.trans h')
  | boolean b =>
    cases hw with
    | boolean => rfl
  | paren _ ih =>
    cases hw with
    | paren h' => exact ih h'
  | plus _ _ h ihl ihr =>
    cases hw with
    | plus hl' hr' h' =>
      obtain rfl := ihl hl'
      obtain rfl := ihr hr'
      exact Option.some.inj (h.symm.trans h')
  | unary _ h ih =>
    cases hw with
    | unary he' h' =>
      obtain rfl := ih he'
      exact Option.some.inj (h.symm.trans h')
  | name hf _ ih =>
    cases hw with
    | name hf' h' =>
      obtain rfl := Option.some.inj (hf.symm.trans hf')
      exact ih h'
  | qualified hf _ ih =>
    cases hw with
    | qualified hf' h' =>
      obtain rfl := Option.some.inj (hf.symm.trans hf')
      exact ih h'
  | field _ _ hinit htype _ h ih =>
    cases hw with
    | field _ _ hinit' htype' he' h' =>
      obtain rfl := Option.some.inj (hinit.symm.trans hinit')
      obtain rfl := Except.ok.inj (htype.symm.trans htype')
      obtain rfl := ih he'
      exact Option.some.inj (h.symm.trans h')

def valueOf (σ : Semantics V) (p : Program) (fields : FieldRef → Option V) (site : Site) :
    Expr → Option V
  | .string (.ok t) => σ.string t
  | .character (.ok t) => σ.character t
  | .integer (.ok t) => σ.integer t
  | .boolean b => some (σ.boolean b)
  | .paren inner => valueOf σ p fields site inner
  | .plus left right =>
    (valueOf σ p fields site left).bind fun a => (valueOf σ p fields site right).bind (σ.plus a)
  | .unary op operand => (valueOf σ p fields site operand).bind (σ.unary op)
  | .name n => (p.field? site n).bind fields
  | .field (.ok owner) n => (p.fieldOf? site owner n).bind fields
  | _ => none

/-- The value of a field by a derivation in which at most `depth` fields stand inside each other. -/
def valueTo (σ : Semantics V) (p : Program) : (depth : Nat) → FieldRef → Option V
  | 0, _ => none
  | depth + 1, f =>
    match f.field.initializer, p.fieldTypeName f with
    | some e, .ok type =>
      if f.field.isFinal = true ∧ f.field.dimensions = 0 then
        (valueOf σ p (valueTo σ p depth) f.site e).bind (σ.declare type)
      else none
    | _, _ => none

theorem derives_of_valueOf {fields : FieldRef → Option V}
    (hfields : ∀ f v, fields f = some v → p.Derives σ (.field f) v) {site : Site} {e : Expr} {v : V}
    (h : valueOf σ p fields site e = some v) : p.Derives σ (.expr site e) v := by
  induction e generalizing v with
  | string literal =>
    cases literal with
    | error e => cases h
    | ok t => exact .string h
  | character literal =>
    cases literal with
    | error e => cases h
    | ok t => exact .character h
  | integer literal =>
    cases literal with
    | error e => cases h
    | ok t => exact .integer h
  | boolean b =>
    obtain rfl := Option.some.inj h
    exact .boolean b
  | paren inner ih => exact .paren (ih h)
  | plus left right ihl ihr =>
    obtain ⟨a, ha, h⟩ := Option.bind_eq_some_iff.mp h
    obtain ⟨b, hb, h⟩ := Option.bind_eq_some_iff.mp h
    exact .plus (ihl ha) (ihr hb) h
  | unary op operand ih =>
    obtain ⟨a, ha, h⟩ := Option.bind_eq_some_iff.mp h
    exact .unary (ih ha) h
  | name n =>
    obtain ⟨f, hf, h⟩ := Option.bind_eq_some_iff.mp h
    exact .name hf (hfields f v h)
  | field owner n =>
    cases owner with
    | error e => cases h
    | ok owner =>
      obtain ⟨f, hf, h⟩ := Option.bind_eq_some_iff.mp h
      exact .qualified hf (hfields f v h)
  | other => cases h

theorem derives_of_valueTo {depth : Nat} {f : FieldRef} {v : V} (h : valueTo σ p depth f = some v) :
    p.Derives σ (.field f) v := by
  induction depth generalizing f v with
  | zero => cases h
  | succ depth ih =>
    rw [valueTo] at h
    split at h
    · rename_i e type hinit htype
      split at h
      · rename_i hfinal
        obtain ⟨a, ha, h⟩ := Option.bind_eq_some_iff.mp h
        exact .field hfinal.1 hfinal.2 hinit htype
          (derives_of_valueOf (fun _ _ hg => ih hg) ha) h
      · cases h
    · cases h

end Program

end LookupGen
