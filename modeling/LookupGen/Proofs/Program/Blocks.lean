import LookupGen.Proofs.Except
import LookupGen.Proofs.Program.Twins

/-!
# Elements type by type

The elements of a program are those of its types one after the other, and what a type comes to
depends neither on the types evaluated before it nor on the numbers of the program.
-/

namespace LookupGen

open EvalM (answer)

namespace Program

variable {p q : Program}

theorem Agrees.refl (p : Program) : p.Agrees p := ⟨rfl, fun _ => rfl⟩

theorem Twins.refl (hp : p.WellScoped) : p.Twins p := ⟨hp, hp, .refl p⟩

def typeAnswer (p : Program) (t : DeclaredType) : Except EvalError (List Element) :=
  answer (p.typeElements t) .empty

theorem TwinsOn.typeAnswer {ask : Name → Prop} (h : TwinsOn ask p q) {t t' : DeclaredType}
    (ht : t ∈ p.types) (ht' : t' ∈ q.types) (hsame : t.unnumbered = t'.unnumbered) :
    p.typeAnswer t = q.typeAnswer t' :=
  (h.typeElements ht ht' hsame _ _ remembers_empty remembers_empty).1

theorem typeAnswer_eq (hp : p.WellScoped) {t t' : DeclaredType} (ht : t ∈ p.types)
    (ht' : t' ∈ p.types) (hsame : t.unnumbered = t'.unnumbered) :
    p.typeAnswer t = p.typeAnswer t' :=
  (Twins.refl hp).on.typeAnswer ht ht' hsame

theorem mapM_typeElements (hp : p.WellScoped) {ts : List DeclaredType} (hts : ∀ t ∈ ts, t ∈ p.types)
    {s : EvalState} (hs : p.Remembers [] s) :
    answer (ts.mapM p.typeElements) s = ts.mapM p.typeAnswer := by
  -- By induction on the types: none is answered otherwise for what is remembered from those
  -- before.
  induction ts generalizing s with
  | nil => rfl
  | cons t rest ih =>
    have ht := hts t List.mem_cons_self
    obtain ⟨hanswer, hafter, -⟩ :=
      (Twins.refl hp).on.typeElements ht ht rfl s .empty hs remembers_empty
    have hrest := ih (fun u hu => hts u (List.mem_cons_of_mem t hu)) hafter
    rw [List.mapM_cons, List.mapM_cons]
    cases hfirst : p.typeAnswer t with
    | error e =>
      rw [EvalM.answer_bind_error (hanswer.trans hfirst)]
      rfl
    | ok es =>
      rw [EvalM.answer_bind_ok (hanswer.trans hfirst)]
      cases hmore : rest.mapM p.typeAnswer with
      | error e =>
        rw [EvalM.answer_bind_error (hrest.trans hmore)]
        rfl
      | ok more =>
        rw [EvalM.answer_bind_ok (hrest.trans hmore)]
        rfl

theorem answer_elements (hp : p.WellScoped) :
    answer p.elements .empty = (p.types.mapM p.typeAnswer).map List.flatten := by
  have htypes := @mapM_typeElements p hp p.types (fun t ht => ht) .empty remembers_empty
  unfold elements
  cases hall : p.types.mapM p.typeAnswer with
  | error e =>
    rw [EvalM.answer_bind_error (htypes.trans hall)]
    rfl
  | ok all =>
    rw [EvalM.answer_bind_ok (htypes.trans hall)]
    rfl

theorem ok_of_answer_elements (hp : p.WellScoped) {es : List Element}
    (h : answer p.elements .empty = .ok es) {t : DeclaredType} (ht : t ∈ p.types) :
    ∃ es, p.typeAnswer t = .ok es := by
  rw [answer_elements hp] at h
  obtain ⟨all, hall, -⟩ := map_eq_ok.mp h
  exact ok_of_mapM hall ht

/-- What a type comes to depends on the type without its numbers. -/
theorem exists_value (hp : p.WellScoped) (hok : ∀ t ∈ p.types, ∃ es, p.typeAnswer t = .ok es) :
    ∃ value : DeclaredType → List Element,
      ∀ t ∈ p.types, p.typeAnswer t = .ok (value t.unnumbered) := by
  have hvalue : ∀ u, ∃ es, ∀ t ∈ p.types, t.unnumbered = u → p.typeAnswer t = .ok es := by
    intro u
    by_cases hu : ∃ t ∈ p.types, t.unnumbered = u
    · obtain ⟨t, ht, rfl⟩ := hu
      obtain ⟨es, hes⟩ := hok t ht
      refine ⟨es, ?_⟩
      intro t' ht' hsame
      rw [typeAnswer_eq hp ht' ht hsame, hes]
    · exact ⟨[], fun t ht hsame => absurd ⟨t, ht, hsame⟩ hu⟩
  choose value hvalue using hvalue
  exact ⟨value, fun t ht => hvalue _ t ht rfl⟩

theorem Twins.exists_values (h : p.Twins q) (hok : ∀ t ∈ p.types, ∃ es, p.typeAnswer t = .ok es)
    (hmem : ∀ t' ∈ q.types, ∃ t ∈ p.types, t.unnumbered = t'.unnumbered) :
    ∃ value : DeclaredType → List Element,
      (∀ t ∈ p.types, p.typeAnswer t = .ok (value t.unnumbered)) ∧
      ∀ t ∈ q.types, q.typeAnswer t = .ok (value t.unnumbered) := by
  obtain ⟨value, hvalue⟩ := exists_value h.left hok
  refine ⟨value, hvalue, ?_⟩
  intro t' ht'
  obtain ⟨t, ht, hsame⟩ := hmem t' ht'
  rw [← h.on.typeAnswer ht ht' hsame, ← hsame]
  exact hvalue t ht

end Program

end LookupGen
