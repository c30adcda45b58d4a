import LookupGen.Proofs.Java.Spelling

/-!
# How names in types are spelled

Types, annotations with their values, and modifiers.
-/

namespace LookupGen.Java

open Java.Parser

variable {S : PartSpec} {file : List Token} {r : Rules} [r.Advance]

section

variable (hS : S.Of file)

include hS

theorem yields_simpleType : Yields file (simpleType r) (·.Holds S) := by
  unfold simpleType
  refine yields_peek.bind fun t ht => ?_
  split
  · refine yields_bind fun _ => yields_pure ?_
    have htext := hS.otherType [t] (infix_of_mem ht)
    rwa [Token.span_singleton] at htext
  · apply (yields_true _).withSpan.bind
    rintro ⟨parameterised, span⟩ ⟨-, us, hus, rfl⟩
    apply yields_pure
    split
    · exact hS.otherType us hus
    · exact hS.type us hus

omit [r.Advance] in
theorem yields_path : Yields file qualifiedName S.path := by
  constructor
  intro ts name rest hts htakes
  obtain ⟨us, hus, hdotted, rfl⟩ := yields_qualifiedName.value hts htakes
  exact hS.path us hus hdotted

theorem yields_dimensions : Yields file (dimensions r) S.brackets := by
  constructor
  intro ts n rest hts htakes
  obtain ⟨⟨u, span⟩, mid, hspan, hpure⟩ := takes_bind.mp htakes
  obtain ⟨rfl, rfl⟩ := takes_pure.mp hpure
  obtain ⟨hpairs, rfl⟩ := takes_withSpan hspan
  obtain ⟨us, rfl, htake⟩ := take_of_takes hpairs
  rw [htake]
  refine hS.brackets us (infix_of_suffix hts) ?_
  obtain ⟨_, late, hone, hmore⟩ := takes_bind.mp hpairs
  obtain ⟨_, opening, hannotations, hpair⟩ := takes_bind.mp hone
  obtain ⟨t, afterOpening, hopening, hclosing⟩ := takes_bind.mp hpair
  obtain ⟨rfl, ht⟩ := takes_sign hopening
  obtain ⟨before, hbefore⟩ := exists_of_advances hannotations
  obtain ⟨between, rfl⟩ := exists_of_advances hclosing
  obtain ⟨after, rfl⟩ := exists_of_advances hmore
  refine ⟨t, ?_, ht⟩
  have hrest : us ++ rest = (before ++ t :: (between ++ after)) ++ rest := by simpa using hbefore
  rw [List.append_cancel_right hrest]
  exact List.mem_append_right _ List.mem_cons_self

theorem yields_plainType : Yields file (plainType r) (·.Holds S) := by
  unfold plainType
  refine (yields_simpleType hS).bind ?_
  intro element helement
  refine (yields_dimensions hS).optional.bind fun o ho => ?_
  cases o with
  | none => exact yields_pure helement
  | some n => exact yields_pure ⟨ho n rfl, helement⟩

end

variable (hr : r.Spelled S file)

include hr

theorem yields_elementValueRule : Yields file (elementValueRule r) (·.Holds S) := by
  unfold elementValueRule
  refine yields_bind fun t => ?_
  split
  · apply hr.annotationUse.bind
    rintro ⟨name, values⟩ ha
    apply yields_pure
    unfold ElementValue.Holds
    exact ha
  · split
    · refine Yields.bind (V := fun items => ∀ v ∈ items, v.Holds S) ?_ ?_
      · apply Yields.enclosed
        refine hr.elementValue.commaSeparated.bind ?_
        exact fun items hitems => yields_bind fun _ => yields_pure hitems
      · intro items hitems
        apply yields_pure
        unfold ElementValue.Holds
        exact ElementValue.allHold_iff.mpr hitems
    · apply hr.expression.bind
      intro e he
      apply yields_pure
      unfold ElementValue.Holds
      exact he

theorem yields_annotationArguments : Yields file (annotationArguments r) fun values =>
    ∀ v ∈ values, v.2.Holds S := by
  have hpair : Yields file (elementPair r) fun v => v.2.Holds S :=
    yields_bind fun _ => yields_bind fun _ => hr.elementValue.bind fun _ hv => yields_pure hv
  have hone : Yields file (do
      let v ← r.elementValue
      pure [(AnnotationData.mainElement, v)]) fun values => ∀ v ∈ values, v.2.Holds S := by
    refine hr.elementValue.bind ?_
    intro v hv
    apply yields_pure
    intro w hw
    rw [List.mem_singleton.mp hw]
    exact hv
  exact (hpair.commaSeparated.enclosed _ _).orElse (hone.enclosed _ _)

theorem yields_annotationRule : Yields file (annotationRule r) (·.Holds S) := by
  unfold annotationRule
  refine yields_bind fun _ => ?_
  refine yields_qualifiedName.bind ?_
  rintro name ⟨us, hus, -, rfl⟩
  have hname := hr.spec.type us hus
  refine yields_bind fun t => ?_
  split
  · apply (yields_annotationArguments hr).bind
    intro values hvalues
    apply yields_pure
    unfold AnnotationUse.Holds
    exact ⟨hname, AnnotationUse.valuesHold_iff.mpr hvalues⟩
  · apply yields_pure
    unfold AnnotationUse.Holds
    exact ⟨hname, trivial⟩

theorem yields_modifiers : Yields file (modifiers r) (·.Holds S) := by
  have hone : Yields file (modifier r) fun m => ∀ a ∈ m.1, a.Holds S := by
    unfold modifier
    refine yields_bind fun p => ?_
    obtain ⟨t, next⟩ := p
    dsimp only
    split
    · apply hr.annotationUse.bind
      intro a ha
      apply yields_pure
      intro b hb
      obtain rfl := Option.some.inj hb
      exact ha
    · split
      · exact yields_bind fun _ => yields_pure fun _ h => by cases h
      · split
        · exact yields_bind fun _ => yields_pure fun _ h => by cases h
        · exact yields_bind fun _ => yields_pure fun _ h => by cases h
    · exact yields_refuse
  refine hone.many.bind ?_
  intro all hall
  apply yields_pure
  intro a ha
  obtain ⟨m, hm, ha⟩ := List.mem_filterMap.mp ha
  exact hall m hm a ha

end LookupGen.Java
