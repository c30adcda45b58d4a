import LookupGen.Proofs.Except
import LookupGen.Proofs.Program.Demand

/-!
# Constants of fields

What a field is answered, whatever was asked before: a constant just where the rules of evaluation
derive one, and nothing wrong is remembered on the way.

This module does NOT say what the constants are in the language that the files are written in.
-/

namespace LookupGen

open Filter (atTop)
open EvalM (answer after)

theorem operated_eq_ok {result : Except NotOneCharacter (Option Constant)} {c : Option Constant} :
    (operated result : Except EvalError (Option Constant)) = .ok c ↔ result = .ok c := by
  cases result with
  | error e => simp [operated, throw, throwThe, MonadExceptOf.throw]
  | ok d => simp [operated, pure, Except.pure]

theorem written_eq_ok {w : Java.Written} {t : Text} :
    (written w : Except EvalError Text) = .ok t ↔ w = .ok t := by
  cases w with
  | error e => simp [written, throw, throwThe, MonadExceptOf.throw]
  | ok d => simp [written, pure, Except.pure]

namespace Program

variable {p : Program}

theorem derives_of_evaluate {v : FieldRef → Except EvalError (Option Constant)}
    (hv : ∀ f c, v f = .ok (some c) → p.Derives .reading (.field f) c) {site : Site}
    {e : Java.Expr} {c : Constant} (h : p.evaluate v site e = .ok (some c)) :
    p.Derives .reading (.expr site e) c := by
  induction e generalizing c with
  | string literal =>
    obtain ⟨t, ht, hc⟩ := bind_eq_ok.mp h
    obtain rfl := written_eq_ok.mp ht
    exact .string (Except.ok.inj hc)
  | character literal =>
    obtain ⟨t, ht, hc⟩ := bind_eq_ok.mp h
    obtain rfl := written_eq_ok.mp ht
    exact .character (Except.ok.inj hc)
  | integer literal =>
    obtain ⟨t, ht, hc⟩ := bind_eq_ok.mp h
    obtain rfl := written_eq_ok.mp ht
    exact .integer (Except.ok.inj hc)
  | boolean b =>
    obtain rfl := Option.some.inj (Except.ok.inj h)
    exact .boolean b
  | paren inner ih => exact .paren (ih h)
  | plus left right ihl ihr =>
    obtain ⟨a, ha, h⟩ := bind_eq_ok.mp h
    cases a with
    | none => exact absurd (Except.ok.inj h) (by simp)
    | some a =>
      obtain ⟨b, hb, h⟩ := bind_eq_ok.mp h
      cases b with
      | none => exact absurd (Except.ok.inj h) (by simp)
      | some b =>
        exact .plus (ihl ha) (ihr hb) (toOption_join_eq_some.mpr (operated_eq_ok.mp h))
  | unary op operand ih =>
    obtain ⟨a, ha, h⟩ := bind_eq_ok.mp h
    cases a with
    | none => exact absurd (Except.ok.inj h) (by simp)
    | some a => exact .unary (ih ha) (toOption_join_eq_some.mpr (operated_eq_ok.mp h))
  | name n =>
    simp only [evaluate] at h
    cases hf : p.field? site n with
    | none => simp [hf, pure, Except.pure] at h
    | some f =>
      simp only [hf] at h
      exact .name hf (hv f c h)
  | field owner n =>
    simp only [evaluate] at h
    obtain ⟨ownerName, howner, hc⟩ := bind_eq_ok.mp h
    obtain rfl := written_eq_ok.mp howner
    cases hf : p.fieldOf? site ownerName n with
    | none => simp [hf, pure, Except.pure] at hc
    | some f =>
      simp only [hf] at hc
      exact .qualified hf (hv f c hc)
  | other => exact absurd (Except.ok.inj h) (by simp)

theorem derives_of_constantTo {n : Nat} {f : FieldRef} {c : Constant}
    (h : p.constantTo n f = .ok (some c)) : p.Derives .reading (.field f) c := by
  induction n generalizing f c with
  | zero => exact absurd (Except.ok.inj h) (by simp)
  | succ n ih =>
    simp only [constantTo, declaredConstant] at h
    split at h
    · exact absurd (Except.ok.inj h) (by simp)
    · rename_i e hinit
      split at h
      · rename_i hfinal
        obtain ⟨type, htype, h⟩ := bind_eq_ok.mp h
        split at h
        · rename_i hmay
          obtain ⟨a, ha, h⟩ := bind_eq_ok.mp h
          obtain ⟨rfl, hfits⟩ := Option.filter_eq_some_iff.mp (Except.ok.inj h)
          refine .field hfinal.1 hfinal.2 hinit (written_eq_ok.mp htype)
            (derives_of_evaluate (fun _ _ hg => ih hg) ha) ?_
          simp [Semantics.reading, hmay, hfits]
        · exact absurd (Except.ok.inj h) (by simp)
      · exact absurd (Except.ok.inj h) (by simp)

theorem Derives.eventually {q : Query} {c : Constant} (h : p.Derives .reading q c) :
    ∀ᶠ n in atTop, (match q with
      | .expr site e => p.evaluateTo n site e
      | .field f => p.constantTo n f) = .ok (some c) := by
  induction h with
  | string h =>
    obtain rfl := Option.some.inj h
    exact Filter.Eventually.of_forall fun _ => rfl
  | character h =>
    obtain rfl := Option.some.inj h
    exact Filter.Eventually.of_forall fun _ => rfl
  | integer h => exact Filter.Eventually.of_forall fun _ => congrArg Except.ok h
  | boolean b => exact Filter.Eventually.of_forall fun _ => rfl
  | paren _ ih => exact ih
  | plus _ _ h ihl ihr =>
    refine (ihl.and ihr).mono ?_
    rintro n ⟨hl, hr⟩
    simp only [evaluateTo, evaluate] at hl hr ⊢
    rw [hl]
    refine bind_eq_ok.mpr ⟨_, rfl, bind_eq_ok.mpr ⟨_, hr, ?_⟩⟩
    exact operated_eq_ok.mpr (toOption_join_eq_some.mp h)
  | unary _ h ih =>
    refine ih.mono ?_
    intro n he
    simp only [evaluateTo, evaluate] at he ⊢
    rw [he]
    exact operated_eq_ok.mpr (toOption_join_eq_some.mp h)
  | name hf _ ih =>
    refine ih.mono ?_
    intro n h
    simp only [evaluateTo, evaluate, hf]
    exact h
  | qualified hf _ ih =>
    refine ih.mono ?_
    intro n h
    simp only [evaluateTo, evaluate, written, pure_bind, hf]
    exact h
  | @field f e type a v hfinal hdims hinit htype _ h ih =>
    have hdeclare : mayBeConstant type = true ∧ fits type a = true ∧ a = v := by
      simpa [Semantics.reading, and_assoc] using h
    obtain ⟨hmay, hfits, rfl⟩ := hdeclare
    refine settled_of_declared (ih.mono ?_)
    intro n he
    have hsucc := constantTo_succ hinit hfinal hdims htype hmay n
    simp only at he
    rw [he] at hsucc
    simpa [constantTo, Except.map, Option.filter, hfits] using hsucc

/-- What a field is answered if it is the first one that is asked for. -/
def alone (p : Program) (f : FieldRef) : Except EvalError (Option Constant) :=
  answer (p.constant f) .empty

theorem remembers_empty : p.Remembers [] .empty := ⟨rfl, fun _ _ _ h => by cases h⟩

theorem demand_follows (hp : p.WellScoped) {budget : Nat} (hbudget : p.fieldCount < budget)
    {f : FieldRef} (hf : f ∈ p.fields) :
    p.Follows [] (fun n => p.constantTo n f) (p.constantWithin budget f) :=
  constantWithin_follows hp budget (affords_nil hbudget) hf fun _ _ h => by cases h

theorem constant_follows (hp : p.WellScoped) {f : FieldRef} (hf : f ∈ p.fields) :
    p.Follows [] (fun n => p.constantTo n f) (p.constant f) :=
  demand_follows hp (Nat.lt_succ_self _) hf

theorem constantAt_follows (hp : p.WellScoped) {site : Site} (hsite : p.HasSite site)
    (e : Java.Expr) :
    p.Follows [] (fun n => p.evaluateTo n site e) (p.constantAt site e) :=
  evaluate_follows (fun _ hg _ => constant_follows hp hg) hsite e fun _ _ h => by cases h

theorem settled_alone (hp : p.WellScoped) {f : FieldRef} (hf : f ∈ p.fields) :
    p.Settled f (p.alone f) :=
  (demand_follows hp (Nat.lt_succ_self _) hf .empty remembers_empty).2

/-- A field has a constant just where there is a derivation of it. -/
theorem alone_eq_some_iff (hp : p.WellScoped) {f : FieldRef} (hf : f ∈ p.fields) {c : Constant} :
    p.alone f = .ok (some c) ↔ p.Derives .reading (.field f) c := by
  constructor
  · intro h
    obtain ⟨n, hn⟩ := (settled_alone hp hf).exists
    exact derives_of_constantTo (hn.trans h)
  · intro h
    exact (settled_alone hp hf).unique h.eventually

/-- The answers for fields that are asked for one after the other, and the state afterwards. An
error ends one answer only. -/
def demandAll (demand : FieldRef → EvalM (Option Constant)) :
    List FieldRef → EvalState → List (Except EvalError (Option Constant)) × EvalState
  | [], s => ([], s)
  | f :: rest, s =>
    let (answers, last) := demandAll demand rest (after (demand f) s)
    (answer (demand f) s :: answers, last)

theorem demand_step (hp : p.WellScoped) {budget : Nat} (hbudget : p.fieldCount < budget)
    {f : FieldRef} (hf : f ∈ p.fields) {s : EvalState} (hs : p.Remembers [] s) :
    p.Remembers [] (after (p.constantWithin budget f) s) ∧
      answer (p.constantWithin budget f) s = p.alone f := by
  obtain ⟨hafter, hanswer⟩ := demand_follows hp hbudget hf s hs
  exact ⟨hafter, Settled.unique hanswer (settled_alone hp hf)⟩

theorem demandAll_run (hp : p.WellScoped) {budget : Nat} (hbudget : p.fieldCount < budget)
    {fs : List FieldRef} (hfs : ∀ f ∈ fs, f ∈ p.fields) {s : EvalState}
    (hs : p.Remembers [] s) :
    p.Remembers [] (demandAll (p.constantWithin budget) fs s).2 ∧
      (demandAll (p.constantWithin budget) fs s).1 = fs.map p.alone := by
  induction fs generalizing s with
  | nil => exact ⟨hs, rfl⟩
  | cons f rest ih =>
    obtain ⟨hafter, hanswer⟩ := demand_step hp hbudget (hfs f List.mem_cons_self) hs
    obtain ⟨hlast, hrest⟩ := ih (fun g hg => hfs g (List.mem_cons_of_mem f hg)) hafter
    refine ⟨hlast, ?_⟩
    simp only [demandAll, List.map_cons, hanswer, hrest]

end Program

def Constant.OneCharacter : Constant → Prop
  | .character t => t.length = 1
  | _ => True

namespace Constant

variable {a b : Constant}

theorem OneCharacter.number? (ha : a.OneCharacter) : ∃ n, a.number? = .ok n := by
  cases a with
  | character t =>
    obtain ⟨c, rfl⟩ := List.length_eq_one_iff.mp ha
    exact ⟨_, rfl⟩
  | string t | boolean b | int n | long n => exact ⟨_, rfl⟩

theorem oneCharacter_ofNumber (isLong : Bool) (n : Int) : (ofNumber isLong n).OneCharacter := by
  cases isLong with
  | false => trivial
  | true => trivial

theorem OneCharacter.plus (ha : a.OneCharacter) (hb : b.OneCharacter) :
    ∃ c, a.plus b = .ok c ∧ ∀ k ∈ c, k.OneCharacter := by
  unfold Constant.plus
  split
  · refine ⟨_, rfl, ?_⟩
    intro k hk
    obtain rfl := Option.mem_some.mp hk
    trivial
  · split
    · obtain ⟨x, hx⟩ := ha.number?
      obtain ⟨y, hy⟩ := hb.number?
      rw [hx, hy]
      cases x with
      | none => exact ⟨none, rfl, by simp⟩
      | some x =>
        cases y with
        | none => exact ⟨none, rfl, by simp⟩
        | some y =>
          refine ⟨_, rfl, ?_⟩
          intro k hk
          obtain rfl := Option.mem_some.mp hk
          exact oneCharacter_ofNumber _ _
    · exact ⟨none, rfl, by simp⟩

theorem OneCharacter.mapNumber (ha : a.OneCharacter) (f : Int → Int) :
    ∃ c, a.mapNumber f = .ok c ∧ ∀ k ∈ c, k.OneCharacter := by
  obtain ⟨x, hx⟩ := ha.number?
  unfold Constant.mapNumber
  rw [hx]
  cases x with
  | none => exact ⟨none, rfl, by simp⟩
  | some x =>
    refine ⟨_, rfl, ?_⟩
    intro k hk
    obtain rfl := Option.mem_some.mp hk
    exact oneCharacter_ofNumber _ _

theorem OneCharacter.applyUnary (ha : a.OneCharacter) (op : Java.UnaryOp) :
    ∃ c, LookupGen.applyUnary op a = .ok c ∧ ∀ k ∈ c, k.OneCharacter := by
  cases op with
  | negation =>
    refine ⟨_, rfl, ?_⟩
    intro k hk
    cases a with
    | boolean b =>
      obtain rfl := Option.mem_some.mp hk
      trivial
    | string t | character t | int n | long n => cases hk
  | plus | minus | complement => exact ha.mapNumber _

end Constant

/-- All literals and names in an expression can be read, and each character literal decodes to one
character. -/
def Java.Expr.Plain : Java.Expr → Prop
  | .string literal => ∃ t, literal = .ok t
  | .character literal => ∃ t, literal = .ok t ∧ (Literal.decode (unquote 1 t)).length = 1
  | .integer literal => ∃ t, literal = .ok t
  | .paren inner => inner.Plain
  | .plus left right => left.Plain ∧ right.Plain
  | .unary _ operand => operand.Plain
  | .field owner _ => ∃ n, owner = .ok n
  | .boolean _ | .name _ | .other => True

namespace Program

variable {p : Program}

/-- The texts of all fields can be read, and their character literals are single characters. -/
def Plain (p : Program) : Prop :=
  ∀ f ∈ p.fields, (∀ e, f.field.initializer = some e → e.Plain) ∧ ∃ t, p.fieldTypeName f = .ok t

end Program

end LookupGen
