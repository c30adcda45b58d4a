import LookupGen.Proofs.Java.Readable
import LookupGen.Proofs.Program.Parts
import LookupGen.Proofs.Program.Strings

/-!
# Soundness of evaluation

In a program that is read from readable files no evaluation breaks off, from whatever state an
evaluation is asked for, and each constant that comes out has a value that fits its type. The
invariant is about what is remembered: it is a constant that the field can have by its declaration.
-/

namespace LookupGen

open EvalM (answer after)
open Java (PartSpec)

namespace Constant

/-- A character is one character, and a number is in the range of its type. -/
def WellTyped : Constant → Prop
  | .character t => t.length = 1
  | .int n => -2 ^ 31 ≤ n ∧ n < 2 ^ 31
  | .long n => -2 ^ 63 ≤ n ∧ n < 2 ^ 63
  | .string _ | .boolean _ => True

variable {a b c : Constant}

theorem WellTyped.oneCharacter (ha : a.WellTyped) : a.OneCharacter := by
  cases a with
  | character t => exact ha
  | string t | boolean b | int n | long n => trivial

theorem wellTyped_ofNumber (isLong : Bool) (n : Int) : (ofNumber isLong n).WellTyped := by
  cases isLong with
  | false =>
    have hpos : 0 < Nat.pow 2 32 := by decide
    exact ⟨Int.le_bmod hpos, Int.bmod_lt hpos⟩
  | true =>
    have hpos : 0 < Nat.pow 2 64 := by decide
    exact ⟨Int.le_bmod hpos, Int.bmod_lt hpos⟩

/-- Whatever the operands of a sum are, a number that comes out is cut to its type. -/
theorem wellTyped_plus (h : a.plus b = .ok (some c)) : c.WellTyped := by
  rcases plus_eq_some h with ⟨rfl, -⟩ | ⟨-, -, isLong, n, rfl⟩
  · trivial
  · exact wellTyped_ofNumber isLong n

theorem wellTyped_applyUnary {op : Java.UnaryOp} (h : applyUnary op a = .ok (some c)) :
    c.WellTyped := by
  cases op with
  | negation =>
    cases a with
    | boolean b =>
      obtain rfl := Option.some.inj (Except.ok.inj h)
      trivial
    | string t | character t | int n | long n => cases h
  | plus | minus | complement =>
    obtain ⟨-, isLong, n, rfl⟩ := mapNumber_eq_some h
    exact wellTyped_ofNumber isLong n

end Constant

/-- An answer without a constant, or with one whose value fits its type. -/
def Sound (c : Option Constant) : Prop := ∀ k ∈ c, k.WellTyped

theorem sound_none : Sound none := nofun

theorem sound_some {c : Constant} (h : c.WellTyped) : Sound (some c) := by
  intro k hk
  obtain rfl := Option.mem_some.mp hk
  exact h

theorem sound_stringConstant (literal : Text) : Sound (some (stringConstant literal)) := by
  apply sound_some
  unfold stringConstant
  split
  · trivial
  · trivial

theorem sound_integerConstant? (literal : Text) : Sound (integerConstant? literal) := by
  intro k hk
  obtain ⟨⟨isLong, n⟩, -, rfl⟩ := Option.map_eq_some_iff.mp hk
  exact Constant.wellTyped_ofNumber isLong n

namespace EvalM

variable {α β : Type} {I : EvalState → Prop} {P : α → Prop} {Q : β → Prop}

/-- From each state with a property, an evaluation comes to a result with a property and leaves a
state with the property again. -/
def Succeeds (I : EvalState → Prop) (P : α → Prop) (x : EvalM α) : Prop :=
  ∀ s, I s → ∃ a, answer x s = .ok a ∧ P a ∧ I (after x s)

theorem succeeds_pure {a : α} (h : P a) : Succeeds I P (pure a) := fun _ hs => ⟨a, rfl, h, hs⟩

theorem Succeeds.imp {P' : α → Prop} {x : EvalM α} (hx : Succeeds I P x) (h : ∀ a, P a → P' a) :
    Succeeds I P' x := by
  intro s hs
  obtain ⟨a, ha, hP, hafter⟩ := hx s hs
  exact ⟨a, ha, h a hP, hafter⟩

theorem succeeds_bind {x : EvalM α} {k : α → EvalM β} (hx : Succeeds I P x)
    (hk : ∀ a, P a → Succeeds I Q (k a)) : Succeeds I Q (x >>= k) := by
  intro s hs
  obtain ⟨a, ha, hP, hafter⟩ := hx s hs
  obtain ⟨b, hb, hQ, hlast⟩ := hk a hP _ hafter
  exact ⟨b, (answer_bind_ok ha).trans hb, hQ, by rwa [after_bind_ok ha]⟩

theorem succeeds_written {w : Java.Written} (h : ∃ t, w = .ok t) :
    Succeeds I (fun t => w = .ok t) (written w) := by
  obtain ⟨t, rfl⟩ := h
  exact succeeds_pure rfl

theorem succeeds_operated {c : Option Constant} {P : Option Constant → Prop} (h : P c) :
    Succeeds I P (operated (.ok c)) := succeeds_pure h

theorem succeeds_mapM {f : α → EvalM β} {R : α → β → Prop} {as : List α}
    (h : ∀ a ∈ as, Succeeds I (R a) (f a)) : Succeeds I (List.Forall₂ R as) (as.mapM f) := by
  induction as with
  | nil => exact succeeds_pure .nil
  | cons a rest ih =>
    rw [List.mapM_cons]
    refine succeeds_bind (h a List.mem_cons_self) ?_
    intro b hb
    refine succeeds_bind (ih fun c hc => h c (List.mem_cons_of_mem a hc)) ?_
    intro bs hbs
    exact succeeds_pure (.cons hb hbs)

end EvalM

open EvalM (Succeeds succeeds_pure succeeds_bind succeeds_written succeeds_operated)

namespace Program

variable {p : Program} {f : FieldRef}

theorem exists_typeName (site : Site) {u : Java.TypeUse} (hu : u.Holds .readable) :
    ∃ n, p.typeName site u = .ok n := by
  induction u with
  | named name =>
    obtain ⟨n, rfl⟩ := hu
    exact ⟨_, rfl⟩
  | other text => exact hu
  | array element n ih =>
    obtain ⟨t, ht⟩ := ih hu.2
    rw [typeName, ht]
    exact ⟨_, rfl⟩

theorem exists_fieldTypeName (hf : f.field.Holds .readable) : ∃ n, p.fieldTypeName f = .ok n := by
  unfold fieldTypeName
  cases htype : f.field.type with
  | none => exact ⟨_, rfl⟩
  | some u =>
    obtain ⟨n, hn⟩ := exists_typeName f.site (hf.type u htype) (p := p)
    simp only [hn]
    exact ⟨_, rfl⟩

theorem Holds.field {S : PartSpec} (h : p.Holds S) (hf : f ∈ p.fields) : f.field.Holds S := by
  obtain ⟨t, ht, hfield, -, -⟩ := mem_fields_iff.mp hf
  exact (h t ht).fields f.field hfield

section Evaluate

variable {I : EvalState → Prop} {demand : FieldRef → EvalM (Option Constant)}

theorem evaluate_succeeds (hdemand : ∀ g ∈ p.fields, Succeeds I Sound (demand g)) {site : Site}
    (hsite : p.HasSite site) {e : Java.Expr} (he : e.Holds .readable) :
    Succeeds I Sound (p.evaluate demand site e) := by
  induction e with
  | string literal =>
    exact succeeds_bind (succeeds_written he) fun t _ => succeeds_pure (sound_stringConstant t)
  | character literal =>
    obtain ⟨t, rfl, hsingle⟩ := he
    exact succeeds_pure (sound_some hsingle)
  | integer literal =>
    exact succeeds_bind (succeeds_written he) fun t _ => succeeds_pure (sound_integerConstant? t)
  | boolean b => exact succeeds_pure (sound_some trivial)
  | other => exact succeeds_pure sound_none
  | paren inner ih => exact ih he
  | plus left right ihl ihr =>
    refine succeeds_bind (ihl he.1) ?_
    intro a ha
    cases a with
    | none => exact succeeds_pure sound_none
    | some a =>
      refine succeeds_bind (ihr he.2) ?_
      intro b hb
      cases b with
      | none => exact succeeds_pure sound_none
      | some b =>
        obtain ⟨c, hc, -⟩ := (ha a rfl).oneCharacter.plus (hb b rfl).oneCharacter
        simp only [hc]
        refine succeeds_operated ?_
        rintro k rfl
        exact Constant.wellTyped_plus hc
  | unary op operand ih =>
    refine succeeds_bind (ih he) ?_
    intro a ha
    cases a with
    | none => exact succeeds_pure sound_none
    | some a =>
      obtain ⟨c, hc, -⟩ := (ha a rfl).oneCharacter.applyUnary op
      simp only [hc]
      refine succeeds_operated ?_
      rintro k rfl
      exact Constant.wellTyped_applyUnary hc
  | name n =>
    simp only [evaluate]
    split
    · rename_i g hg
      exact hdemand g (hsite.mem_fields hg)
    · exact succeeds_pure sound_none
  | field owner n =>
    refine succeeds_bind (succeeds_written he) ?_
    intro owner _
    split
    · rename_i g hg
      exact hdemand g (mem_fields_of_fieldOf? hg)
    · exact succeeds_pure sound_none

/-- What a constant of a field is like: its value fits its type, and the declaration of the field
admits it. -/
structure Admits (p : Program) (f : FieldRef) (c : Constant) : Prop where
  wellTyped : c.WellTyped
  final : f.field.isFinal = true
  dimensions : f.field.dimensions = 0
  initialized : f.field.initializer ≠ none
  type : ∃ type, p.fieldTypeName f = .ok type ∧ mayBeConstant type = true ∧ fits type c = true

def AdmitsAll (p : Program) (f : FieldRef) (c : Option Constant) : Prop := ∀ k ∈ c, p.Admits f k

theorem AdmitsAll.sound {c : Option Constant} (h : p.AdmitsAll f c) : Sound c :=
  fun k hk => (h k hk).wellTyped

theorem declaredConstant_succeeds (hdemand : ∀ g ∈ p.fields, Succeeds I Sound (demand g))
    (hsite : p.HasSite f.site) (hf : f.field.Holds .readable) :
    Succeeds I (p.AdmitsAll f) (p.declaredConstant demand f) := by
  unfold declaredConstant
  cases hinit : f.field.initializer with
  | none => exact succeeds_pure nofun
  | some e =>
    simp only
    split
    · rename_i hfinal
      refine succeeds_bind (succeeds_written (exists_fieldTypeName hf)) ?_
      intro type htype
      split
      · rename_i hmay
        refine succeeds_bind (evaluate_succeeds hdemand hsite (hf.initializer e hinit)) ?_
        intro c hc
        refine succeeds_pure ?_
        intro k hk
        obtain ⟨hk, hfits⟩ := Option.filter_eq_some_iff.mp hk
        exact ⟨hc k hk, hfinal.1, hfinal.2, by simp [hinit], type, htype, hmay, hfits⟩
      · exact succeeds_pure nofun
    · exact succeeds_pure nofun

end Evaluate

/-- Each constant that is remembered is one that the declaration of its field admits, whatever
fields are under evaluation. -/
def SoundState (p : Program) (s : EvalState) : Prop :=
  ∀ g ∈ p.fields, ∀ c, s.memo.lookup g.key = some c → p.AdmitsAll g c

theorem soundState_empty : p.SoundState .empty := fun _ _ _ h => by cases h

theorem succeeds_entering {α : Type} {P : α → Prop} {x : EvalM α} (key : Nat × Name)
    (h : Succeeds p.SoundState P x) : Succeeds p.SoundState P (entering key x) :=
  fun s hs => h { s with active := key :: s.active } hs

theorem succeeds_remember (hp : p.WellScoped) (hf : f ∈ p.fields) {c : Option Constant}
    (hc : p.AdmitsAll f c) :
    Succeeds p.SoundState (p.AdmitsAll f)
      (do modify fun s => { s with memo := (f.key, c) :: s.memo }
          pure c : EvalM (Option Constant)) := by
  intro s hs
  refine ⟨c, rfl, hc, ?_⟩
  intro g hg r hr
  rcases hp.of_lookup_remembered hf hg hr with ⟨rfl, rfl⟩ | hr
  · exact hc
  · exact hs g hg r hr

theorem constantWithin_succeeds (hp : p.WellScoped) (hreadable : p.Holds .readable) (budget : Nat)
    (hf : f ∈ p.fields) : Succeeds p.SoundState (p.AdmitsAll f) (p.constantWithin budget f) := by
  -- By induction on the budget: what is remembered is admitted, a field under evaluation has no
  -- constant, and any other field is entered.
  induction budget generalizing f with
  | zero => exact succeeds_pure nofun
  | succ budget ih =>
    intro s hs
    simp only [answer, after, run_constantWithin_succ]
    cases hmemo : s.memo.lookup f.key with
    | some known => exact ⟨known, rfl, hs f hf known hmemo, hs⟩
    | none =>
      simp only
      split
      · exact ⟨none, rfl, nofun, hs⟩
      · have hdeclared : Succeeds p.SoundState (p.AdmitsAll f)
            (p.declaredConstant (p.constantWithin budget) f) :=
          declaredConstant_succeeds (fun g hg => (ih hg).imp fun _ hc => hc.sound)
            (hp.hasSite_of_mem hf) (hreadable.field hf)
        exact succeeds_bind (succeeds_entering f.key hdeclared)
          (fun c hc => succeeds_remember hp hf hc) s hs

/-- The states in which a constant may be asked for: those that evaluations leave, and those in the
middle of one, with a field under evaluation. -/
inductive Reached (p : Program) : EvalState → Prop where
  | start : Reached p .empty
  | enter {s : EvalState} {f : FieldRef} (h : Reached p s) (hf : f ∈ p.fields) :
      Reached p { s with active := f.key :: s.active }
  | field {s : EvalState} {f : FieldRef} (budget : Nat) (h : Reached p s) (hf : f ∈ p.fields) :
      Reached p (after (p.constantWithin budget f) s)
  | expression {s : EvalState} {site : Site} {e : Java.Expr} (budget : Nat) (h : Reached p s)
      (hsite : p.HasSite site) (he : e.Holds .readable) :
      Reached p (after (p.evaluate (p.constantWithin budget) site e) s)

theorem evaluateWithin_succeeds (hp : p.WellScoped) (hreadable : p.Holds .readable) (budget : Nat)
    {site : Site} (hsite : p.HasSite site) {e : Java.Expr} (he : e.Holds .readable) :
    Succeeds p.SoundState Sound (p.evaluate (p.constantWithin budget) site e) :=
  evaluate_succeeds
    (fun _ hg => (constantWithin_succeeds hp hreadable budget hg).imp fun _ hc => hc.sound) hsite he

theorem Reached.soundState (hp : p.WellScoped) (hreadable : p.Holds .readable) {s : EvalState}
    (h : p.Reached s) : p.SoundState s := by
  induction h with
  | start => exact soundState_empty
  | enter _ _ ih => exact ih
  | field budget _ hf ih =>
    obtain ⟨-, -, -, hafter⟩ := constantWithin_succeeds hp hreadable budget hf _ ih
    exact hafter
  | expression budget _ hsite he ih =>
    obtain ⟨-, -, -, hafter⟩ := evaluateWithin_succeeds hp hreadable budget hsite he _ ih
    exact hafter

end Program

end LookupGen
