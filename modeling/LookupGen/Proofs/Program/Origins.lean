import LookupGen.Program.Elements
import LookupGen.Proofs.Program.Demand

/-!
# Origins of elements

All elements of a type, those of its fields and methods included, stand in the file of the type.

This module does NOT say in which line.
-/

namespace LookupGen

open EvalM (answer)

namespace EvalM

variable {α β : Type} {P : α → Prop} {Q : β → Prop}

def Yields (x : EvalM α) (P : α → Prop) : Prop := ∀ s a, answer x s = .ok a → P a

theorem yields_pure {a : α} (h : P a) : Yields (pure a) P := by
  intro s b hb
  obtain rfl := Except.ok.inj hb
  exact h

theorem yields_true (x : EvalM α) : Yields x fun _ => True := fun _ _ _ => trivial

theorem yields_bind {x : EvalM α} {k : α → EvalM β} (hx : Yields x P)
    (hk : ∀ a, P a → Yields (k a) Q) : Yields (x >>= k) Q := by
  intro s b hb
  cases hanswer : answer x s with
  | error e =>
    rw [answer_bind_error hanswer] at hb
    cases hb
  | ok a =>
    rw [answer_bind_ok hanswer] at hb
    exact hk a (hx s a hanswer) _ b hb

theorem yields_mapM {f : α → EvalM β} {as : List α} (h : ∀ a ∈ as, Yields (f a) Q) :
    Yields (as.mapM f) fun bs => ∀ b ∈ bs, Q b := by
  induction as with
  | nil => exact yields_pure fun b hb => by cases hb
  | cons a rest ih =>
    rw [List.mapM_cons]
    refine yields_bind (h a List.mem_cons_self) ?_
    intro b hb
    refine yields_bind (ih fun c hc => h c (List.mem_cons_of_mem a hc)) ?_
    intro bs hbs
    refine yields_pure ?_
    intro c hc
    rcases List.mem_cons.mp hc with rfl | hc
    · exact hb
    · exact hbs c hc

end EvalM

open EvalM (yields_pure yields_true yields_bind yields_mapM)

def Element.StandsIn (e : Element) (path : Text) : Prop :=
  ∃ line, e.origin = some (Text.join [path, ":", Text.ofNat line])

namespace Program

variable (p : Program)

theorem yields_fieldElements (f : FieldRef) :
    EvalM.Yields (p.fieldElements f) fun result => ∀ e ∈ result.2, e.StandsIn f.site.file.path := by
  unfold fieldElements
  refine yields_bind (yields_true _) ?_
  intro c _
  refine yields_bind (yields_true _) ?_
  intro type _
  refine yields_bind (yields_true _) ?_
  intro annotations _
  refine yields_pure ?_
  intro e he
  simp only at he
  split at he
  · cases he
  · obtain rfl := List.mem_singleton.mp he
    exact ⟨_, rfl⟩

theorem yields_methodElements (t : DeclaredType) (m : MethodDecl) :
    EvalM.Yields (p.methodElements t m) fun es => ∀ e ∈ es, e.StandsIn t.file.path := by
  unfold methodElements
  refine yields_bind (yields_true _) ?_
  intro annotations _
  refine yields_pure ?_
  intro e he
  split at he
  · cases he
  · obtain rfl := List.mem_singleton.mp he
    exact ⟨_, rfl⟩

theorem yields_typeElements (t : DeclaredType) :
    EvalM.Yields (p.typeElements t) fun es => ∀ e ∈ es, e.StandsIn t.file.path := by
  have hfields : ∀ f ∈ t.fieldRefs,
      EvalM.Yields (p.fieldElements f) fun result => ∀ e ∈ result.2, e.StandsIn t.file.path := by
    intro f hf
    obtain ⟨d, -, rfl⟩ := List.mem_map.mp hf
    exact p.yields_fieldElements _
  unfold typeElements
  refine yields_bind (yields_mapM hfields) ?_
  intro fields hfields
  refine yields_bind (yields_true _) ?_
  intro annotations _
  refine yields_bind (yields_mapM fun m _ => p.yields_methodElements t m) ?_
  intro methods hmethods
  refine yields_pure ?_
  intro e he
  rcases List.mem_append.mp he with he | he
  · obtain ⟨result, hresult, he⟩ := List.mem_flatMap.mp he
    exact hfields result hresult e he
  · rcases List.mem_cons.mp he with rfl | he
    · exact ⟨_, rfl⟩
    · obtain ⟨es, hes, he⟩ := List.mem_flatten.mp he
      exact hmethods es hes e he

end Program

end LookupGen
