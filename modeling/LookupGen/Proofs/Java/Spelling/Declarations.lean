import LookupGen.Proofs.Java.Spelling.Expressions

/-!
# How declarations spell their names

The names that are declared are words, those of types as well as those of members.
-/

namespace LookupGen.Java

open Java.Parser

variable {S : PartSpec} {file : List Token} {r : Rules} [r.Advance] (hr : r.Spelled S file)

include hr

omit hr in
theorem yields_variableName : Yields file (variableName r) (·.2.1 ∈ words file) := by
  unfold variableName
  refine yields_bind fun _ => yields_identifier.bind fun name hname => ?_
  exact yields_bind fun _ => yields_pure hname

theorem yields_declarators :
    Yields file (declarators r) fun ds => ∀ d ∈ ds, d.Holds S := by
  have hone : Yields file (declarator r) (·.Holds S) := by
    unfold declarator
    refine yields_variableName.bind fun (t, name, n) hname => ?_
    refine Yields.bind (yields_bind fun _ => yields_variableInitializer hr).optional ?_
    intro initializer hinitializer
    exact yields_pure ⟨hr.spec.member name hname, hinitializer⟩
  exact hone.separated

theorem yields_typeDeclarationRule {m : Modifiers} (hm : m.Holds S) (line : Nat) :
    Yields file (typeDeclarationRule r m line) (·.Holds S) := by
  have hmade (kind : TypeKind) {name : Name} (hname : name ∈ words file) {members : List Member}
      (hmembers : ∀ m ∈ members, m.Holds S) :
      (TypeDeclaration.mk kind m name line members).Holds S := by
    unfold TypeDeclaration.Holds
    exact ⟨hm, hr.spec.declared name hname, Member.allHold_iff.mpr hmembers⟩
  have hbody (kind : TypeKind) (body : BodyKind) {name : Name} (hname : name ∈ words file) :
      Yields file (do
        let members ← enclosed "\x7b" (r.members body) "\x7d"
        pure (TypeDeclaration.mk kind m name line members)) (·.Holds S) :=
    ((hr.members body).enclosed _ _).bind fun _ hmembers => yields_pure (hmade kind hname hmembers)
  unfold typeDeclarationRule
  refine yields_bind fun t => ?_
  dsimp only
  split
  · exact yields_bind fun _ => yields_identifier.bind fun name hname => hbody _ _ hname
  · refine yields_bind fun _ => yields_identifier.bind fun name hname => ?_
    exact yields_bind fun _ => yields_bind fun _ => yields_bind fun _ => yields_bind fun _ =>
      hbody _ _ hname
  · refine yields_bind fun _ => yields_identifier.bind fun name hname => ?_
    exact yields_bind fun _ => yields_bind fun _ => yields_bind fun _ => hbody _ _ hname
  · refine yields_bind fun _ => yields_identifier.bind fun name hname => ?_
    exact yields_bind fun _ => yields_bind fun _ => yields_bind fun _ => hbody _ _ hname
  · refine yields_bind fun _ => yields_identifier.bind fun name hname => ?_
    refine yields_bind fun _ => yields_bind fun _ => ?_
    refine Yields.bind (V := fun cs => ∀ m ∈ cs, m.Holds S) ?_ ?_
    · apply Yields.commaSeparated
      refine yields_bind fun start => (yields_modifiers hr).bind ?_
      intro own hown
      refine yields_identifier.bind fun n hn => ?_
      have hconstant : Yields file (pure (Member.constant own n start.line)) (·.Holds S) := by
        apply yields_pure
        unfold Member.Holds
        exact ⟨hown, hr.spec.member n hn⟩
      refine yields_bind fun next => ?_
      split
      · refine yields_bind fun _ => yields_bind fun after => ?_
        split
        · exact yields_bind fun _ => hconstant
        · exact hconstant
      · refine yields_bind fun after => ?_
        split
        · exact yields_bind fun _ => hconstant
        · exact hconstant
    · intro constants hconstants
      refine yields_bind fun _ => ?_
      refine Yields.bind (yields_bind fun _ => hr.members .general).optional ?_
      intro members hmembers
      refine yields_bind fun _ => yields_pure (hmade _ hname ?_)
      intro m hm
      rcases List.mem_append.mp hm with hm | hm
      · exact hconstants m hm
      · cases members with
        | none => exact absurd hm List.not_mem_nil
        | some members => exact hmembers members rfl m hm
  · exact yields_refuse

section Members

variable {m : Modifiers} (hm : m.Holds S) (line : Nat)

include hm

omit hr [r.Advance] in
theorem yields_method (kind : Kind) (name : Name) :
    Yields file (pure (Member.method kind m name line)) (·.Holds S) := by
  apply yields_pure
  unfold Member.Holds
  exact hm

omit hr in
theorem yields_methodRest : Yields file (methodRest r m line) (·.Holds S) := by
  unfold methodRest
  refine yields_bind fun name => yields_bind fun _ => yields_bind fun _ => yields_bind fun _ =>
    yields_bind fun t => ?_
  split
  · exact yields_bind fun _ => yields_method hm line _ name
  · exact yields_bind fun _ => yields_method hm line _ name

omit hr in
theorem yields_constructorRest :
    Yields file (constructorRest r m line) (·.Holds S) :=
  yields_bind fun name => yields_bind fun _ => yields_bind fun _ => yields_bind fun _ =>
    yields_method hm line _ name

omit hr in
theorem yields_compactConstructorRest :
    Yields file (compactConstructorRest r m line) (·.Holds S) :=
  yields_bind fun name => yields_bind fun _ => yields_method hm line _ name

omit hr in
theorem yields_elementRest : Yields file (elementRest r m line) (·.Holds S) :=
  yields_bind fun name => yields_bind fun _ => yields_bind fun _ => yields_bind fun _ =>
    yields_bind fun _ => yields_bind fun _ => yields_method hm line _ name

theorem yields_typedMember (kind : BodyKind) :
    Yields file (typedMember r kind m line) (·.Holds S) := by
  unfold typedMember
  refine (yields_plainType hr.spec).bind fun type htype => yields_bind fun (t, next) => ?_
  dsimp only
  split
  · split
    · exact yields_elementRest hm line
    · exact yields_methodRest hm line
  · refine (yields_declarators hr).bind fun ds hds => yields_bind fun _ => yields_pure ?_
    unfold Member.Holds
    exact ⟨hm, htype, hds⟩

end Members

theorem yields_modifiedMember (kind : BodyKind) :
    Yields file (modifiedMember r kind) (·.Holds S) := by
  unfold modifiedMember
  refine yields_bind fun start => (yields_modifiers hr).bind ?_
  intro m hm
  refine yields_bind fun (t, next) => ?_
  dsimp only
  split
  · split
    · exact yields_refuse
    · refine (hr.typeDeclaration m _ hm).bind ?_
      rintro ⟨kind, modifiers, name, line, members⟩ hd
      apply yields_pure
      unfold Member.Holds
      exact hd
  · split
    · refine yields_bind fun _ => yields_bind fun _ => yields_bind fun (u, after) => ?_
      dsimp only
      split
      · exact yields_constructorRest hm _
      · exact yields_bind fun _ => yields_methodRest hm _
    · split
      · exact yields_constructorRest hm _
      · split
        · exact yields_compactConstructorRest hm _
        · exact yields_typedMember hr hm _ kind

theorem yields_membersRule (kind : BodyKind) :
    Yields file (membersRule r kind) fun ms => ∀ m ∈ ms, m.Holds S := by
  have hone : Yields file (member r kind) fun o => ∀ m ∈ o, m.Holds S := by
    unfold member
    refine yields_bind fun (t, next) => ?_
    dsimp only
    split
    · exact yields_bind fun _ => yields_pure nofun
    · split
      · exact yields_bind fun _ => yields_pure nofun
      · split
        · exact yields_bind fun _ => yields_bind fun _ => yields_pure nofun
        · refine (yields_modifiedMember hr kind).bind fun d hd => yields_pure ?_
          intro m hm
          obtain rfl := Option.some.inj hm
          exact hd
  refine hone.many.bind fun all hall => yields_pure ?_
  intro m hm
  obtain ⟨o, ho, heq⟩ := List.mem_filterMap.mp hm
  exact hall o ho m heq

end LookupGen.Java
