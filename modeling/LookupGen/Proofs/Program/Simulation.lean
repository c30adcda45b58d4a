import LookupGen.Proofs.Program.Rules

/-!
# Readings that simulate each other

Where the literals and the operators of one reading are matched by those of another up to a relation
of their values, so are the values of whole expressions, and those of fields if the declarations
match as well. The match of literals can be limited to literals of some form.
-/

namespace LookupGen

open Java (Expr)

section

variable {S S' C C' : Text → Prop}

/-- All string literals of an expression are of one form, and all character literals of another. -/
def Java.Expr.AllLiterals (S C : Text → Prop) : Expr → Prop
  | .string (.ok t) => S t
  | .character (.ok t) => C t
  | .paren inner => inner.AllLiterals S C
  | .plus left right => left.AllLiterals S C ∧ right.AllLiterals S C
  | .unary _ operand => operand.AllLiterals S C
  | _ => True

instance decidableAllLiterals [DecidablePred S] [DecidablePred C] :
    (e : Expr) → Decidable (e.AllLiterals S C)
  | .string (.ok t) => inferInstanceAs (Decidable (S t))
  | .character (.ok t) => inferInstanceAs (Decidable (C t))
  | .paren inner => decidableAllLiterals inner
  | .plus left right =>
    @instDecidableAnd _ _ (decidableAllLiterals left) (decidableAllLiterals right)
  | .unary _ operand => decidableAllLiterals operand
  | .string (.error _) | .character (.error _) | .integer _ | .boolean _ | .name _ | .field _ _
  | .other => isTrue trivial

theorem allLiterals_imp (hS : ∀ t, S t → S' t) (hC : ∀ t, C t → C' t) {e : Expr}
    (h : e.AllLiterals S C) : e.AllLiterals S' C' := by
  induction e with
  | string literal =>
    cases literal with
    | error e => exact h
    | ok t => exact hS t h
  | character literal =>
    cases literal with
    | error e => exact h
    | ok t => exact hC t h
  | plus left right ihl ihr => exact ⟨ihl h.1, ihr h.2⟩
  | paren inner ih | unary op inner ih => exact ih h
  | _ => exact h

theorem allLiterals_true (e : Expr) : e.AllLiterals (fun _ => True) (fun _ => True) := by
  induction e with
  | string literal | character literal => cases literal <;> exact trivial
  | plus left right ihl ihr => exact ⟨ihl, ihr⟩
  | paren inner ih | unary op inner ih => exact ih
  | _ => exact trivial

end

variable {V W : Type}

/-- Literals of a form and operators are matched up to a relation of values. -/
structure Semantics.Simulates (σ : Semantics V) (τ : Semantics W) (R : V → W → Prop)
    (S C : Text → Prop) : Prop where
  string : ∀ t v, S t → σ.string t = some v → ∃ w, τ.string t = some w ∧ R v w
  character : ∀ t v, C t → σ.character t = some v → ∃ w, τ.character t = some w ∧ R v w
  integer : ∀ t v, σ.integer t = some v → ∃ w, τ.integer t = some w ∧ R v w
  boolean : ∀ b, R (σ.boolean b) (τ.boolean b)
  plus : ∀ a a' b b' v, R a a' → R b b' → σ.plus a b = some v →
    ∃ w, τ.plus a' b' = some w ∧ R v w
  unary : ∀ op a a' v, R a a' → σ.unary op a = some v → ∃ w, τ.unary op a' = some w ∧ R v w

namespace Program

variable {p : Program} {σ : Semantics V} {τ : Semantics W} {R : V → W → Prop}
  {S C : Text → Prop}

theorem Derives.simulate_expr (hsim : σ.Simulates τ R S C) {site : Site} {e : Expr}
    {v : V} (he : e.AllLiterals S C)
    (hrefs : ∀ g ∈ p.refs site e, ∀ x, p.Derives σ (.field g) x →
      ∃ y, p.Derives τ (.field g) y ∧ R x y)
    (h : p.Derives σ (.expr site e) v) : ∃ w, p.Derives τ (.expr site e) w ∧ R v w := by
  induction e generalizing v with
  | string literal =>
    cases h with
    | string ht =>
      obtain ⟨w, hw, hr⟩ := hsim.string _ _ he ht
      exact ⟨w, .string hw, hr⟩
  | character literal =>
    cases h with
    | character ht =>
      obtain ⟨w, hw, hr⟩ := hsim.character _ _ he ht
      exact ⟨w, .character hw, hr⟩
  | integer literal =>
    cases h with
    | integer ht =>
      obtain ⟨w, hw, hr⟩ := hsim.integer _ _ ht
      exact ⟨w, .integer hw, hr⟩
  | boolean b =>
    cases h with
    | boolean => exact ⟨_, .boolean b, hsim.boolean b⟩
  | paren inner ih =>
    cases h with
    | paren h =>
      obtain ⟨w, hw, hr⟩ := ih he hrefs h
      exact ⟨w, .paren hw, hr⟩
  | plus left right ihl ihr =>
    cases h with
    | plus hl hr hplus =>
      obtain ⟨a, ha, hra⟩ := ihl he.1 (fun g hg => hrefs g (List.mem_append_left _ hg)) hl
      obtain ⟨b, hb, hrb⟩ := ihr he.2 (fun g hg => hrefs g (List.mem_append_right _ hg)) hr
      obtain ⟨w, hw, hrw⟩ := hsim.plus _ _ _ _ _ hra hrb hplus
      exact ⟨w, .plus ha hb hw, hrw⟩
  | unary op operand ih =>
    cases h with
    | unary h hop =>
      obtain ⟨a, ha, hra⟩ := ih he hrefs h
      obtain ⟨w, hw, hrw⟩ := hsim.unary _ _ _ _ hra hop
      exact ⟨w, .unary ha hw, hrw⟩
  | name n =>
    cases h with
    | name hf h =>
      obtain ⟨w, hw, hr⟩ := hrefs _ (by simp [refs, hf]) _ h
      exact ⟨w, .name hf hw, hr⟩
  | field owner n =>
    cases h with
    | qualified hf h =>
      obtain ⟨w, hw, hr⟩ := hrefs _ (by simp [refs, hf]) _ h
      exact ⟨w, .qualified hf hw, hr⟩
  | other => cases h

/-- What makes a field match, given that its initializer does. -/
def Matches (p : Program) (σ : Semantics V) (τ : Semantics W) (R : V → W → Prop)
    (S C : Text → Prop) (f : FieldRef) : Prop :=
  ∀ e, f.field.initializer = some e → e.AllLiterals S C ∧
    ∀ type a b v, p.fieldTypeName f = .ok type → p.Derives σ (.expr f.site e) a → R a b →
      σ.declare type a = some v → ∃ w, τ.declare type b = some w ∧ R v w

theorem Derives.simulate (hsim : σ.Simulates τ R S C) {f : FieldRef} {v : V}
    (h : p.Derives σ (.field f) v)
    (hmatch : ∀ g, Relation.ReflTransGen p.Uses f g → p.Matches σ τ R S C g) :
    ∃ w, p.Derives τ (.field f) w ∧ R v w := by
  have hgrounded := h.grounded
  -- By induction on the fields in use: a field is matched if all fields that it uses match.
  induction hgrounded generalizing v with
  | intro f _ ih =>
    cases h with
    | @field _ e type a _ hfinal hdimensions hinit htype he hdeclare =>
      obtain ⟨hliterals, hfield⟩ := hmatch f .refl e hinit
      have hrefs : ∀ g ∈ p.refs f.site e, ∀ x, p.Derives σ (.field g) x →
          ∃ y, p.Derives τ (.field g) y ∧ R x y := by
        intro g hg x hx
        have huse : p.Uses f g := ⟨e, hinit, hg⟩
        exact ih g huse hx fun k hk => hmatch k (.head huse hk)
      obtain ⟨b, hb, hr⟩ := he.simulate_expr hsim hliterals hrefs
      obtain ⟨w, hw, hrw⟩ := hfield type a b v htype he hr hdeclare
      exact ⟨w, .field hfinal hdimensions hinit htype hb hw, hrw⟩

end Program

end LookupGen
