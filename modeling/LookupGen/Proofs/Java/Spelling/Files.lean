import LookupGen.Proofs.Java.Spelling.Declarations

/-!
# How the names of a file are spelled

The statements of a file yield items with names as they are spelled, so by induction on the depth of
the rules all of its items have such names.
-/

namespace LookupGen.Java

open Java.Parser

section Rules

variable {S : PartSpec} {file : List Token} {r : Rules} [r.Advance] (hr : r.Spelled S file)

include hr

theorem yields_packageDeclaration :
    Yields file (packageDeclaration r) (·.Holds S) := by
  unfold packageDeclaration
  refine yields_bind fun _ => yields_bind fun _ => (yields_path hr.spec).bind ?_
  exact fun name hname => yields_bind fun _ => yields_pure hname

omit hr [r.Advance] in
theorem yields_importDeclaration (hS : S.Of file) :
    Yields file importDeclaration (·.Holds S) := by
  unfold importDeclaration
  refine yields_bind fun _ => yields_bind fun t => ?_
  dsimp only
  split
  · refine yields_bind fun _ => (yields_path hS).bind ?_
    exact fun name hname => yields_bind fun _ => yields_bind fun _ => yields_pure hname
  · refine (yields_path hS).bind ?_
    exact fun name hname => yields_bind fun _ => yields_bind fun _ => yields_pure hname

theorem yields_declaredType : Yields file (declaredType r) (·.Holds S) := by
  unfold declaredType
  refine yields_bind fun start => (yields_modifiers hr).bind ?_
  intro m hm
  refine yields_bind fun (t, next) => ?_
  dsimp only
  split
  · exact hr.typeDeclaration m _ hm
  · exact yields_refuse

theorem yields_statementRule :
    Yields file (statementRule r) fun o => ∀ item ∈ o, item.Holds S := by
  have hsome {p : Parser Item} [Advances p] (hp : Yields file p (·.Holds S)) :
      Yields file (do
        let item ← p
        pure (some item)) fun o => ∀ item ∈ o, item.Holds S := by
    refine hp.bind fun item hitem => yields_pure ?_
    intro other hother
    obtain rfl := Option.some.inj hother
    exact hitem
  have hnone {p : Parser Unit} [Advances p] : Yields file (do
      p
      pure none) fun o : Option Item => ∀ item ∈ o, item.Holds S :=
    yields_bind fun _ => yields_pure nofun
  have hdeclaration : Yields file (firstOf [
      do
        let d ← declaredType r
        pure (some (.type d)),
      do
        let i ← packageDeclaration r
        pure (some i),
      do
        moduleDeclaration r
        pure none]) fun o => ∀ item ∈ o, item.Holds S := by
    apply yields_firstOf
    simp only [List.forall_mem_cons, List.not_mem_nil, false_imp_iff, implies_true, and_true]
    refine ⟨?_, hsome (yields_packageDeclaration hr), hnone⟩
    refine (yields_declaredType hr).bind fun d hd => yields_pure ?_
    intro item hitem
    obtain rfl := Option.some.inj hitem
    exact hd
  have hfirst {p : Parser Unit} [Advances p] {q : Parser (Option Item)}
      (hq : Yields file q fun o => ∀ item ∈ o, item.Holds S) : Yields file (firstOf [q, do
        p
        pure none]) fun o => ∀ item ∈ o, item.Holds S := by
    apply yields_firstOf
    simp only [List.forall_mem_cons, List.not_mem_nil, false_imp_iff, implies_true, and_true]
    exact ⟨hq, hnone⟩
  unfold statementRule
  refine yields_bind fun (t, next) => ?_
  dsimp only
  split
  · exact hnone
  · exact hnone
  · exact hfirst hdeclaration
  · exact hdeclaration
  · split
    · exact hsome (yields_importDeclaration hr.spec)
    · split
      · exact hnone
      · split
        · exact hdeclaration
        · split
          · exact hfirst hdeclaration
          · split
            · exact hfirst hdeclaration
            · exact hnone
  · exact hnone

theorem yields_fileRule :
    Yields file (fileRule r) fun items => ∀ item ∈ items, item.Holds S := by
  have hone : Yields file (topLevel r) fun o => ∀ item ∈ o, item.Holds S :=
    hr.statement.orElse (yields_bind fun _ => yields_pure nofun)
  refine hone.many.bind fun all hall => yields_bind fun _ => yields_pure ?_
  intro item hitem
  obtain ⟨o, ho, heq⟩ := List.mem_filterMap.mp hitem
  exact hall o ho item heq

end Rules

theorem spelled_rules {S : PartSpec} {file : List Token} (hS : S.Of file) (depth : Nat) :
    (rules depth).Spelled S file := by
  induction depth with
  | zero =>
    exact ⟨hS, ended_rules 0, yields_refuse, yields_refuse, yields_refuse, yields_refuse,
      yields_refuse, fun _ _ _ => yields_refuse, fun _ => yields_refuse⟩
  | succ depth ih =>
    exact {
      spec := hS
      ended := ended_rules (depth + 1)
      annotationUse := yields_annotationRule ih
      elementValue := yields_elementValueRule ih
      expression := yields_expressionRule ih
      unary := yields_unaryRule ih
      statement := yields_statementRule ih
      typeDeclaration := fun _ line hm => yields_typeDeclarationRule ih hm line
      members := yields_membersRule ih }

/-- The parts of the items of a file are what the grammar makes sure of. -/
theorem holds_of_parseItems {S : PartSpec} {file : List Token} (hS : S.Of file) {items : List Item}
    (h : parseItems file = .ok items) : ∀ item ∈ items, item.Holds S := by
  unfold parseItems at h
  split at h
  · rename_i hrule
    obtain rfl := Except.ok.inj h
    exact (yields_fileRule (spelled_rules hS _)).value List.suffix_rfl ⟨_, hrule⟩
  · cases h

theorem meets_of_parseItems {file : List Token} {items : List Item}
    (h : parseItems file = .ok items) : ∀ item ∈ items, item.Meets (.spelled file) :=
  fun item hitem => (holds_of_parseItems (NameSpec.spelled_of file) h item hitem).meets

end LookupGen.Java
