import LookupGen.Proofs.Program.Depth
import Mathlib.Data.List.Perm.Subperm

/-!
# Asking for constants

Fields are asked for in any order, results are remembered, and a field that is met while it is
under evaluation counts as having no constant. None of that shows in the answers: each is the one
that is given without memory once fields may be asked for deeply enough, and it is a constant just
where the rules of evaluation derive one.

A field that breaks off the search for another one is itself under evaluation, so it needs the
other one. If either had a constant, each would have one at a smaller depth than the other.
-/

namespace LookupGen

open Filter (atTop)

namespace EvalM

variable {α β : Type}

def answer (x : EvalM α) (s : EvalState) : Except EvalError α := (x.run.run s).1

def after (x : EvalM α) (s : EvalState) : EvalState := (x.run.run s).2

variable {x : EvalM α} {k : α → EvalM β} {s : EvalState}

theorem run_bind (x : EvalM α) (k : α → EvalM β) (s : EvalState) :
    (x >>= k).run.run s =
      match answer x s with
      | .ok a => (k a).run.run (after x s)
      | .error e => (.error e, after x s) := by
  unfold answer after
  rcases h : x.run.run s with ⟨e | a, s'⟩
  · rw [ExceptT.run_bind, StateT.run_bind, h]
    rfl
  · rw [ExceptT.run_bind, StateT.run_bind, h]
    rfl

theorem answer_bind_ok {a : α} (h : answer x s = .ok a) :
    answer (x >>= k) s = answer (k a) (after x s) := by
  unfold answer
  rw [run_bind, h]

theorem after_bind_ok {a : α} (h : answer x s = .ok a) :
    after (x >>= k) s = after (k a) (after x s) := by
  conv_lhs => unfold after
  rw [run_bind, h]
  rfl

theorem answer_bind_error {e : EvalError} (h : answer x s = .error e) :
    answer (x >>= k) s = .error e := by
  unfold answer
  rw [run_bind, h]

theorem after_bind_error {e : EvalError} (h : answer x s = .error e) :
    after (x >>= k) s = after x s := by
  conv_lhs => unfold after
  rw [run_bind, h]

end EvalM

open EvalM (answer after)

namespace Program

variable {p : Program}

/-- A state in which given fields are under evaluation and all that is remembered is right. -/
structure Remembers (p : Program) (active : List (Nat × Name)) (s : EvalState) : Prop where
  active_eq : s.active = active
  memo : ∀ f ∈ p.fields, ∀ r, s.memo.lookup f.key = some r → p.Settled f (.ok r)

/-- An evaluation that keeps the memory right, and answers what a family of answers comes to. -/
def Follows {α : Type} (p : Program) (active : List (Nat × Name)) (u : Nat → Except EvalError α)
    (x : EvalM α) : Prop :=
  ∀ s, p.Remembers active s →
    p.Remembers active (after x s) ∧ ∀ᶠ n in atTop, u n = answer x s

section Follows

variable {α β : Type} {active : List (Nat × Name)}

theorem follows_pure (a : α) : p.Follows active (fun _ => pure a) (pure a) :=
  fun _ hs => ⟨hs, Filter.Eventually.of_forall fun _ => rfl⟩

theorem follows_throw (e : EvalError) :
    p.Follows active (fun _ => (throw e : Except EvalError α)) (throw e) :=
  fun _ hs => ⟨hs, Filter.Eventually.of_forall fun _ => rfl⟩

theorem follows_bind {u : Nat → Except EvalError α} {v : Nat → α → Except EvalError β}
    {x : EvalM α} {k : α → EvalM β} (hx : p.Follows active u x)
    (hk : ∀ a, (∀ᶠ n in atTop, u n = .ok a) → p.Follows active (fun n => v n a) (k a)) :
    p.Follows active (fun n => u n >>= v n) (x >>= k) := by
  intro s hs
  obtain ⟨hs₁, hu⟩ := hx s hs
  cases hanswer : answer x s with
  | error e =>
    rw [EvalM.after_bind_error hanswer, EvalM.answer_bind_error hanswer]
    refine ⟨hs₁, hu.mono ?_⟩
    intro n hn
    change u n >>= v n = _
    rw [hn, hanswer]
    rfl
  | ok a =>
    rw [hanswer] at hu
    obtain ⟨hs₂, hv⟩ := hk a hu _ hs₁
    rw [EvalM.after_bind_ok hanswer, EvalM.answer_bind_ok hanswer]
    refine ⟨hs₂, (hu.and hv).mono ?_⟩
    rintro n ⟨hn, hn'⟩
    change u n >>= v n = _
    rw [hn, ← hn']
    rfl

theorem follows_written (w : Java.Written) : p.Follows active (fun _ => written w) (written w) := by
  cases w with
  | ok t => exact follows_pure t
  | error e => exact follows_throw _

theorem follows_operated (result : Except NotOneCharacter (Option Constant)) :
    p.Follows active (fun _ => operated result) (operated result) := by
  cases result with
  | ok c => exact follows_pure c
  | error e => exact follows_throw _

end Follows

def NeededExpr (p : Program) (active : List (Nat × Name)) (site : Site) (e : Java.Expr) : Prop :=
  ∀ a ∈ p.fields, a.key ∈ active → ∀ n, p.constantTo (n + 1) a ≠ .ok none →
    p.evaluateTo n site e ≠ .ok none

/-- Every field under evaluation needs an answer for the field at a smaller depth. -/
def Needed (p : Program) (active : List (Nat × Name)) (f : FieldRef) : Prop :=
  ∀ a ∈ p.fields, a.key ∈ active → ∀ n, p.constantTo (n + 1) a ≠ .ok none →
    p.constantTo n f ≠ .ok none

/-- A field under evaluation that is needed again has no answer but none: one at some depth would
bring one at a smaller depth. -/
theorem Needed.settled_none {active : List (Nat × Name)} {f : FieldRef} (h : p.Needed active f)
    (hf : f ∈ p.fields) (hactive : f.key ∈ active) : p.Settled f (.ok none) := by
  have hnone : ∀ n, p.constantTo n f = .ok none := by
    intro n
    induction n with
    | zero => rfl
    | succ n ih =>
      by_contra hne
      exact h f hf hactive n hne ih
  exact Filter.Eventually.of_forall hnone

section Evaluate

variable {active : List (Nat × Name)} {d : FieldRef → EvalM (Option Constant)}

theorem NeededExpr.left {site : Site} {left right : Java.Expr}
    (h : p.NeededExpr active site (.plus left right)) : p.NeededExpr active site left := by
  intro a ha hactive n hn hnone
  refine h a ha hactive n hn ?_
  simp only [evaluateTo, evaluate] at hnone ⊢
  rw [hnone]
  rfl

/-- Where the left operand has an answer at all, it is the one on which it settles. -/
theorem NeededExpr.right {site : Site} {left right : Java.Expr} {c : Constant}
    (h : p.NeededExpr active site (.plus left right))
    (hleft : ∀ᶠ n in atTop, p.evaluateTo n site left = .ok (some c)) :
    p.NeededExpr active site right := by
  intro a ha hactive n hn hnone
  have hsome : p.evaluateTo n site left = .ok (some c) := by
    obtain ⟨m, hm, hnm⟩ := (hleft.and (Filter.eventually_ge_atTop n)).exists
    rw [← evaluateTo_stable hnm (h.left a ha hactive n hn), hm]
  refine h a ha hactive n hn ?_
  simp only [evaluateTo, evaluate] at hsome hnone ⊢
  rw [hsome]
  change (p.evaluate (p.constantTo n) site right >>= _) = _
  rw [hnone]
  rfl

theorem NeededExpr.operand {site : Site} {op : Java.UnaryOp} {operand : Java.Expr}
    (h : p.NeededExpr active site (.unary op operand)) : p.NeededExpr active site operand := by
  intro a ha hactive n hn hnone
  refine h a ha hactive n hn ?_
  simp only [evaluateTo, evaluate] at hnone ⊢
  rw [hnone]
  rfl

theorem evaluate_follows
    (hd : ∀ g ∈ p.fields, p.Needed active g →
      p.Follows active (fun n => p.constantTo n g) (d g))
    {site : Site} (hsite : p.HasSite site) (e : Java.Expr) (he : p.NeededExpr active site e) :
    p.Follows active (fun n => p.evaluateTo n site e) (p.evaluate d site e) := by
  induction e with
  | string literal => exact follows_bind (follows_written literal) fun t _ => follows_pure _
  | character literal => exact follows_bind (follows_written literal) fun t _ => follows_pure _
  | integer literal => exact follows_bind (follows_written literal) fun t _ => follows_pure _
  | boolean b => exact follows_pure _
  | other => exact follows_pure _
  | paren inner ih => exact ih he
  | plus left right ihl ihr =>
    refine follows_bind (ihl he.left) ?_
    intro a ha
    cases a with
    | none => exact follows_pure _
    | some a =>
      refine follows_bind (ihr (he.right ha)) ?_
      intro b _
      cases b with
      | none => exact follows_pure _
      | some b => exact follows_operated _
  | unary op operand ih =>
    refine follows_bind (ih he.operand) ?_
    intro a _
    cases a with
    | none => exact follows_pure _
    | some a => exact follows_operated _
  | name n =>
    simp only [evaluate, evaluateTo, NeededExpr] at he ⊢
    cases hf : p.field? site n with
    | none => exact follows_pure _
    | some f =>
      simp only [hf] at he
      exact hd f (hsite.mem_fields hf) he
  | field owner n =>
    cases owner with
    | error err => exact follows_throw _
    | ok owner =>
      simp only [evaluateTo, evaluate, written, pure_bind, NeededExpr] at he ⊢
      cases hf : p.fieldOf? site owner n with
      | none => exact follows_pure _
      | some f =>
        simp only [hf] at he
        exact hd f (mem_fields_of_fieldOf? hf) he

theorem declaredConstant_follows {f : FieldRef} (hsite : p.HasSite f.site)
    (hd : ∀ g ∈ p.fields, p.Needed active g →
      p.Follows active (fun n => p.constantTo n g) (d g))
    (he : ∀ e type, f.field.initializer = some e → f.field.isFinal = true →
      f.field.dimensions = 0 → p.fieldTypeName f = .ok type → mayBeConstant type = true →
      p.NeededExpr active f.site e) :
    p.Follows active (fun n => p.declaredConstant (p.constantTo n) f) (p.declaredConstant d f) := by
  unfold declaredConstant
  cases hinit : f.field.initializer with
  | none => exact follows_pure none
  | some e =>
    simp only
    split
    · rename_i hfinal
      refine follows_bind (follows_written _) ?_
      intro type htype
      have htype : p.fieldTypeName f = .ok type := by
        obtain ⟨_, hn⟩ := htype.exists
        cases hname : p.fieldTypeName f with
        | ok t => simpa [written, hname, pure, Except.pure] using hn
        | error err => simp [written, hname, throw, throwThe, MonadExceptOf.throw] at hn
      split
      · rename_i hmay
        have hneeded := he e type hinit hfinal.1 hfinal.2 htype hmay
        exact follows_bind (evaluate_follows hd hsite e hneeded) fun c _ => follows_pure _
      · exact follows_pure none
    · exact follows_pure none

end Evaluate

structure Affords (p : Program) (active : List (Nat × Name)) (budget : Nat) : Prop where
  nodup : active.Nodup
  subset : active ⊆ p.fields.map FieldRef.key
  enough : p.fieldCount < active.length + budget

theorem affords_nil {budget : Nat} (h : p.fieldCount < budget) : p.Affords [] budget :=
  ⟨List.nodup_nil, List.nil_subset _, by simpa using h⟩

theorem Affords.pos {active : List (Nat × Name)} {budget : Nat} (h : p.Affords active budget) :
    0 < budget := by
  have hle : active.length ≤ p.fieldCount := by
    have := (List.subperm_of_subset h.nodup h.subset).length_le
    rwa [List.length_map, length_fields] at this
  have := h.enough
  omega

theorem Affords.enter {active : List (Nat × Name)} {budget : Nat}
    (h : p.Affords active (budget + 1)) {f : FieldRef} (hf : f ∈ p.fields)
    (hnew : f.key ∉ active) : p.Affords (f.key :: active) budget where
  nodup := List.nodup_cons.mpr ⟨hnew, h.nodup⟩
  subset := List.cons_subset.mpr ⟨List.mem_map_of_mem hf, h.subset⟩
  enough := by
    have := h.enough
    rw [List.length_cons]
    omega

theorem constantTo_succ {f : FieldRef} {e : Java.Expr} {type : Name}
    (hinit : f.field.initializer = some e) (hfinal : f.field.isFinal = true)
    (hdims : f.field.dimensions = 0) (htype : p.fieldTypeName f = .ok type)
    (hmay : mayBeConstant type = true) (n : Nat) :
    p.constantTo (n + 1) f = (p.evaluateTo n f.site e).map fun c => c.filter (fits type) := by
  simp only [constantTo, declaredConstant, hinit, hfinal, hdims, htype, written,
    evaluateTo, and_self, if_true, pure_bind, hmay]
  cases p.evaluate (p.constantTo n) f.site e with
  | error err => rfl
  | ok c => rfl

/-- What needs a field under evaluation needs its initializer, and so does the field itself. -/
theorem Needed.initializer (hp : p.WellScoped) {active : List (Nat × Name)} {f : FieldRef}
    (hf : f ∈ p.fields) (h : p.Needed active f) {e : Java.Expr} {type : Name}
    (hinit : f.field.initializer = some e) (hfinal : f.field.isFinal = true)
    (hdims : f.field.dimensions = 0) (htype : p.fieldTypeName f = .ok type)
    (hmay : mayBeConstant type = true) : p.NeededExpr (f.key :: active) f.site e := by
  have hown : ∀ n, p.constantTo (n + 1) f ≠ .ok none → p.evaluateTo n f.site e ≠ .ok none := by
    intro n hn hnone
    rw [constantTo_succ hinit hfinal hdims htype hmay, hnone] at hn
    exact hn rfl
  intro a ha hactive n hn
  rcases List.mem_cons.mp hactive with hkey | hactive
  · obtain rfl := hp.eq_of_key_eq ha hf hkey
    exact hown n hn
  · have hneed := h a ha hactive n hn
    cases n with
    | zero => exact absurd rfl hneed
    | succ n =>
      have hsmall := hown n hneed
      rw [evaluateTo_stable (Nat.le_succ n) hsmall]
      exact hsmall

section Constant

variable {active : List (Nat × Name)}

theorem follows_entering {α : Type} {u : Nat → Except EvalError α} {x : EvalM α}
    {key : Nat × Name} (h : p.Follows (key :: active) u x) :
    p.Follows active u (entering key x) := by
  intro s hs
  have hinside : p.Remembers (key :: active) { s with active := key :: s.active } :=
    ⟨by rw [hs.active_eq], hs.memo⟩
  obtain ⟨hafter, hu⟩ := h _ hinside
  refine ⟨⟨?_, hafter.memo⟩, hu⟩
  change (after x _).active.erase key = active
  rw [hafter.active_eq, List.erase_cons_head]

theorem follows_remember (hp : p.WellScoped) {f : FieldRef} (hf : f ∈ p.fields)
    {c : Option Constant} (hc : p.Settled f (.ok c)) :
    p.Follows active (fun _ => pure c)
      (do modify fun s => { s with memo := (f.key, c) :: s.memo }
          pure c : EvalM (Option Constant)) := by
  intro s hs
  refine ⟨⟨hs.active_eq, ?_⟩, Filter.Eventually.of_forall fun _ => rfl⟩
  intro g hg r hr
  rcases hp.of_lookup_remembered hf hg hr with ⟨rfl, rfl⟩ | hr
  · exact hc
  · exact hs.memo g hg r hr

theorem run_constantWithin_succ (budget : Nat) (f : FieldRef) (s : EvalState) :
    (p.constantWithin (budget + 1) f).run.run s =
      match s.memo.lookup f.key with
      | some known => (.ok known, s)
      | none =>
        if s.active.contains f.key then (.ok none, s)
        else
          (entering f.key (p.declaredConstant (p.constantWithin budget) f) >>= fun c =>
            (do modify fun s => { s with memo := (f.key, c) :: s.memo }
                pure c : EvalM (Option Constant))).run.run s := by
  rw [constantWithin, EvalM.run_bind]
  change (match s.memo.lookup f.key with
    | some known => _
    | none => _ : EvalM (Option Constant)).run.run s = _
  cases s.memo.lookup f.key with
  | some known => rfl
  | none =>
    simp only
    split
    · rfl
    · rfl

theorem constantWithin_follows (hp : p.WellScoped) (budget : Nat) {active : List (Nat × Name)}
    (hbudget : p.Affords active budget) {f : FieldRef} (hf : f ∈ p.fields)
    (hneed : p.Needed active f) :
    p.Follows active (fun n => p.constantTo n f) (p.constantWithin budget f) := by
  -- By induction on the budget: the answer for a field that all fields under evaluation need is
  -- the one that is given without memory.
  induction budget generalizing active f with
  | zero => exact absurd hbudget.pos (Nat.lt_irrefl 0)
  | succ budget ih =>
    intro s hs
    simp only [answer, after, run_constantWithin_succ]
    cases hmemo : s.memo.lookup f.key with
    | some known => exact ⟨hs, hs.memo f hf known hmemo⟩
    | none =>
      simp only
      split
      · rename_i hactive
        rw [List.contains_iff_mem, hs.active_eq] at hactive
        exact ⟨hs, hneed.settled_none hf hactive⟩
      · rename_i hnew
        rw [List.contains_iff_mem, hs.active_eq] at hnew
        have hinit : p.Follows (f.key :: active)
            (fun n => p.declaredConstant (p.constantTo n) f)
            (p.declaredConstant (p.constantWithin budget) f) :=
          declaredConstant_follows (hp.hasSite_of_mem hf)
            (fun g hg hneeded => ih (hbudget.enter hf hnew) hg hneeded)
            (fun e type => hneed.initializer hp hf)
        have hall := follows_bind (follows_entering hinit)
          (fun c hc => follows_remember hp hf (settled_of_declared hc)) s hs
        simp only [bind_pure] at hall
        exact ⟨hall.1, settled_of_declared hall.2⟩

end Constant

end Program

end LookupGen
