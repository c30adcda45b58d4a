import LookupGen.Proofs.Program.Rules
import Mathlib.Order.Filter.AtTopBot.Basic

/-!
# Evaluation to a depth

Without memory, fields are asked for inside each other to some depth only. A constant or an error
that is found at one depth is found at all greater ones, so a field has one answer in the end.
-/

namespace LookupGen

open Filter (atTop eventually_atTop)

namespace Program

variable (p : Program)

/-- The constant of a field if other fields are asked for to a depth only, and nothing is
remembered. -/
def constantTo : Nat → FieldRef → Except EvalError (Option Constant)
  | 0, _ => .ok none
  | n + 1, f => p.declaredConstant (constantTo n) f

def evaluateTo (n : Nat) (site : Site) (e : Java.Expr) : Except EvalError (Option Constant) :=
  p.evaluate (p.constantTo n) site e

def Settled (f : FieldRef) (r : Except EvalError (Option Constant)) : Prop :=
  ∀ᶠ n in atTop, p.constantTo n f = r

variable {p : Program}

theorem Settled.unique {f : FieldRef} {r r' : Except EvalError (Option Constant)}
    (h : p.Settled f r) (h' : p.Settled f r') : r = r' := by
  obtain ⟨n, hn, hn'⟩ := (h.and h').exists
  exact hn.symm.trans hn'

theorem settled_of_declared {f : FieldRef} {r : Except EvalError (Option Constant)}
    (h : ∀ᶠ n in atTop, p.declaredConstant (p.constantTo n) f = r) : p.Settled f r := by
  obtain ⟨N, hN⟩ := eventually_atTop.mp h
  refine eventually_atTop.mpr ⟨N + 1, ?_⟩
  intro n hn
  obtain ⟨m, rfl⟩ : ∃ m, n = m + 1 := ⟨n - 1, by omega⟩
  exact hN m (by omega)

section Extension

variable {v w : FieldRef → Except EvalError (Option Constant)}

/-- Answers other than none are kept by better informed ones. -/
theorem evaluate_extend (h : ∀ g, v g ≠ .ok none → w g = v g) (site : Site) (e : Java.Expr)
    (he : p.evaluate v site e ≠ .ok none) : p.evaluate w site e = p.evaluate v site e := by
  induction e with
  | string | character | integer | boolean | other => rfl
  | paren inner ih => exact ih he
  | plus left right ihl ihr =>
    simp only [evaluate] at he ⊢
    have hl : p.evaluate v site left ≠ .ok none := by
      intro hl
      rw [hl] at he
      exact he rfl
    rw [ihl hl]
    cases hleft : p.evaluate v site left with
    | error e => rfl
    | ok a =>
      cases a with
      | none => exact absurd hleft hl
      | some a =>
        rw [hleft] at he
        have hr : p.evaluate v site right ≠ .ok none := by
          intro hr
          simp only [hr] at he
          exact he rfl
        simp only [bind, Except.bind, ihr hr]
  | unary op operand ih =>
    simp only [evaluate] at he ⊢
    have ho : p.evaluate v site operand ≠ .ok none := by
      intro ho
      rw [ho] at he
      exact he rfl
    rw [ih ho]
  | name n =>
    simp only [evaluate] at he ⊢
    split
    · rename_i f hf
      rw [hf] at he
      exact h f he
    · rfl
  | field owner n =>
    cases owner with
    | error e => rfl
    | ok owner =>
      simp only [evaluate, written, bind, Except.bind, pure, Except.pure] at he ⊢
      split
      · rename_i f hf
        rw [hf] at he
        exact h f he
      · rfl

theorem declaredConstant_extend (h : ∀ g, v g ≠ .ok none → w g = v g) (f : FieldRef)
    (hf : p.declaredConstant v f ≠ .ok none) :
    p.declaredConstant w f = p.declaredConstant v f := by
  unfold declaredConstant at hf ⊢
  split
  · rfl
  · rename_i e hinit
    rw [hinit] at hf
    simp only at hf
    split
    · rename_i hfinal
      rw [if_pos hfinal] at hf
      cases htype : p.fieldTypeName f with
      | error e => rfl
      | ok type =>
        simp only [written, htype, bind, Except.bind, pure, Except.pure] at hf ⊢
        split
        · rename_i hmay
          rw [if_pos hmay] at hf
          have he : p.evaluate v f.site e ≠ .ok none := by
            intro he
            simp only [he] at hf
            exact hf rfl
          rw [evaluate_extend h f.site e he]
        · rfl
    · rfl

end Extension

theorem constantTo_stable {n m : Nat} (hnm : n ≤ m) {f : FieldRef}
    (h : p.constantTo n f ≠ .ok none) : p.constantTo m f = p.constantTo n f := by
  have step : ∀ n, ∀ f, p.constantTo n f ≠ .ok none →
      p.constantTo (n + 1) f = p.constantTo n f := by
    intro n
    induction n with
    | zero => exact fun f hf => absurd rfl hf
    | succ n ih => exact fun f hf => declaredConstant_extend ih f hf
  induction hnm with
  | refl => rfl
  | @step m _ ih => rw [← ih, step m f (ih ▸ h)]

theorem evaluateTo_stable {n m : Nat} (hnm : n ≤ m) {site : Site} {e : Java.Expr}
    (h : p.evaluateTo n site e ≠ .ok none) : p.evaluateTo m site e = p.evaluateTo n site e :=
  evaluate_extend (fun _ hg => constantTo_stable hnm hg) site e h

end Program

end LookupGen
