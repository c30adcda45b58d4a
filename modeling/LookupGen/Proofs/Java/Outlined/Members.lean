import LookupGen.Proofs.Java.Outlined

/-!
# Members and their outlines

The members that the grammar takes from the body of a type are those of its outline. Before each of
them it takes all the modifiers there are, so what comes after these starts the member itself.

This module does NOT say what a type inside the body is: the rule for it is one of the rules that
are given.
-/

namespace LookupGen.Java

open Java.Parser

section Rules

variable {r : Rules} [r.Balance]

structure FinishesMember (kind : BodyKind) (m : Modifiers) (line : Nat) (us : List Token)
    (member : Member) : Prop where
  ne_nil : us ≠ []
  tokens : ∀ modifiers front, ModifierTokens m.annotations.length modifiers →
    Balanced .header front → StartsMember (front ++ us) →
    StartsOn line (modifiers ++ (front ++ us)) →
    MemberTokens kind (modifiers ++ (front ++ us)) member

def FinishesMethod (kind : BodyKind) (us : List Token) : Prop :=
  ∃ rest last, us = rest ++ last ∧ Balanced .header rest ∧ EndTokens kind last

section Members

variable {kind : BodyKind} {m : Modifiers} {line : Nat}

theorem FinishesMethod.append {us vs : List Token} (h : FinishesMethod kind vs)
    (hus : Balanced .header us) : FinishesMethod kind (us ++ vs) := by
  obtain ⟨rest, last, rfl, hrest, hlast⟩ := h
  exact ⟨us ++ rest, last, (List.append_assoc us rest last).symm, hus.append hrest, hlast⟩

theorem finishesMethod_of_end {us : List Token} (h : EndTokens kind us) : FinishesMethod kind us :=
  ⟨[], us, rfl, .nil _, h⟩

theorem gives_front {α : Type} {p : Parser α} {k : α → Parser Member} [Balances .header p]
    (hk : ∀ a, Gives (k a) (FinishesMember kind m line)) :
    Gives (p >>= k) (FinishesMember kind m line) := by
  refine (gives_of_balances .header).bind ?_
  intro us a hus
  refine (hk a).mono ?_
  intro vs member hvs
  refine ⟨List.append_ne_nil_of_right_ne_nil us hvs.ne_nil, ?_⟩
  intro modifiers front hmodifiers hfront hstarts hline
  rw [← List.append_assoc front us vs] at hstarts hline ⊢
  exact hvs.tokens modifiers _ hmodifiers (hfront.append hus) hstarts hline

theorem gives_methodHeader {α : Type} {p : Parser α} {k : α → Parser Member} [Balances .header p]
    {member : Member} (hk : ∀ a, Gives (k a) fun us o => o = member ∧ FinishesMethod kind us) :
    Gives (p >>= k) fun us o => o = member ∧ FinishesMethod kind us := by
  refine (gives_of_balances .header).bind ?_
  intro us a hus
  exact (hk a).mono fun vs o ho => ⟨ho.1, ho.2.append hus⟩

theorem gives_method {sort : Kind} (hsort : sort = .method ∨ sort = .constructor)
    {k : Name → Parser Member}
    (hk : ∀ name, Gives (k name) fun us o => o = .method sort m name line ∧
      FinishesMethod kind us) :
    Gives (identifier >>= k) (FinishesMember kind m line) := by
  refine gives_identifier.bind ?_
  rintro _ name ⟨t, rfl, ht⟩
  refine (hk name).mono ?_
  rintro _ _ ⟨rfl, rest, last, rfl, hrest, hlast⟩
  refine ⟨List.cons_ne_nil _ _, ?_⟩
  intro modifiers front hmodifiers hfront hstarts hline
  rw [List.singleton_append] at hstarts hline ⊢
  exact .method hsort hmodifiers hstarts hfront ht hrest hlast hline

theorem gives_methodRest (hr : r.Outlined) (hkind : kind ≠ .annotationType) :
    Gives (methodRest r m line) (FinishesMember kind m line) := by
  unfold methodRest
  refine gives_method (.inl rfl) fun name => ?_
  refine gives_methodHeader fun _ => gives_methodHeader fun _ => gives_methodHeader fun _ => ?_
  refine gives_peek fun t => ?_
  split
  · refine (gives_sign ";").ignore.bind ?_
    rintro _ _ ⟨u, rfl, hu⟩
    exact gives_pure ⟨rfl, finishesMethod_of_end (.semicolon hu)⟩
  · refine hr.block.bind ?_
    intro us _ hus
    apply gives_pure
    rw [List.append_nil]
    exact ⟨rfl, finishesMethod_of_end (.body hkind hus)⟩

theorem gives_constructorBody :
    Gives (constructorBody r) fun us _ => Bracketed "\x7b" "\x7d" us := by
  refine (gives_sign "\x7b").bind ?_
  rintro _ t ⟨rfl, ht⟩
  refine (gives_of_balances .body).bind ?_
  intro call _ hcall
  refine (gives_of_balances .body).bind ?_
  intro statements _ hstatements
  refine (gives_sign "\x7d").ignore.mono ?_
  rintro _ _ ⟨u, rfl, hu⟩
  exact ⟨t, call ++ statements, u, by simp, ht, hcall.append hstatements, hu⟩

theorem gives_constructorRest (hkind : kind ≠ .annotationType) :
    Gives (constructorRest r m line) (FinishesMember kind m line) := by
  unfold constructorRest
  refine gives_method (.inr rfl) fun name => ?_
  refine gives_methodHeader fun _ => gives_methodHeader fun _ => ?_
  refine gives_constructorBody.bind ?_
  intro us _ hus
  apply gives_pure
  rw [List.append_nil]
  exact ⟨rfl, finishesMethod_of_end (.body hkind hus)⟩

omit [r.Balance] in
theorem gives_compactConstructorRest (hr : r.Outlined) (hkind : kind ≠ .annotationType) :
    Gives (compactConstructorRest r m line) (FinishesMember kind m line) := by
  unfold compactConstructorRest
  refine gives_method (.inr rfl) fun name => ?_
  refine hr.block.bind ?_
  intro us _ hus
  apply gives_pure
  rw [List.append_nil]
  exact ⟨rfl, finishesMethod_of_end (.body hkind hus)⟩

theorem gives_elementRest :
    Gives (elementRest r m line) (FinishesMember .annotationType m line) := by
  unfold elementRest
  refine gives_method (.inl rfl) fun name => ?_
  refine (gives_sign "(").bind ?_
  rintro _ t ⟨rfl, ht⟩
  refine (gives_sign ")").bind ?_
  rintro _ u ⟨rfl, hu⟩
  refine (gives_of_balances .header).bind ?_
  intro brackets _ hbrackets
  have hdefault : Gives (do
      let _ ← keyword "default"
      r.elementValue) fun us _ => ∃ v value, us = v :: value ∧ v.kind = .word "default" ∧
        Balanced .expression value := by
    refine (gives_keyword "default").bind ?_
    rintro _ v ⟨rfl, hv⟩
    exact (gives_of_balances .expression).mono fun value _ hvalue => ⟨v, value, rfl, hv, hvalue⟩
  refine hdefault.optional.bind ?_
  intro us o hus
  refine (gives_sign ";").bind ?_
  rintro _ w ⟨rfl, hw⟩
  refine gives_pure ⟨rfl, t :: u :: brackets, us ++ [w], by simp, ?_, ?_⟩
  · exact .group Surface.header.round_mem ht (.nil _) hu hbrackets
  · rcases hus with ⟨-, rfl⟩ | ⟨_, -, v, value, rfl, hv, hvalue⟩
    · exact .semicolon hw
    · exact .default rfl hv hvalue hw

theorem gives_variableName : Gives (variableName r) fun us (t, name, _) =>
    ∃ brackets, us = t :: brackets ∧ t.Names name ∧ Balanced .header brackets := by
  intro ts result rest h
  obtain ⟨t, mid, hpeek, hafter⟩ := takes_bind.mp h
  obtain ⟨name, late, hname, hmore⟩ := takes_bind.mp hafter
  obtain ⟨n, last, hdimensions, hpure⟩ := takes_bind.mp hmore
  obtain ⟨rfl, rfl⟩ := takes_pure.mp hpure
  obtain ⟨hsame, hhead⟩ := takes_peek hpeek
  obtain ⟨_, hmid, u, rfl, hu⟩ := gives_identifier _ _ _ hname
  rw [← hsame, hmid] at hhead
  obtain rfl := Option.some.inj hhead
  rw [← hsame, hmid]
  obtain ⟨brackets, rfl, hbrackets⟩ := Balances.taken (f := .header) hdimensions
  exact ⟨u :: brackets, rfl, brackets, rfl, hu, hbrackets⟩

theorem gives_declarator : Gives (declarator r) VariableTokens := by
  have hvalue : Gives (do
      let _ ← sign "="
      variableInitializer r) fun us _ => ∃ u rest, us = u :: rest ∧ u.kind = .sign "=" ∧
        Balanced .expression rest := by
    refine (gives_sign "=").bind ?_
    rintro _ u ⟨rfl, hu⟩
    exact (gives_of_balances .expression).mono fun rest _ hrest => ⟨u, rest, rfl, hu, hrest⟩
  refine gives_variableName.bind ?_
  rintro _ ⟨t, name, n⟩ ⟨brackets, rfl, ht, hbrackets⟩
  refine hvalue.optional.bind ?_
  intro value o hvalue
  apply gives_pure
  rw [List.append_nil]
  refine .mk ht rfl hbrackets ?_
  rcases hvalue with ⟨-, rfl⟩ | ⟨_, -, hvalue⟩
  · exact .inl rfl
  · exact .inr hvalue

theorem gives_fieldsRest (type : TypeUse) :
    Gives (fieldsRest r m type) (FinishesMember kind m line) := by
  refine gives_declarator.listed.bind ?_
  intro declared ds hds
  refine (gives_sign ";").bind ?_
  rintro _ t ⟨rfl, ht⟩
  apply gives_pure
  refine ⟨by simp, ?_⟩
  intro modifiers front hmodifiers hfront hstarts _
  rw [List.append_nil] at hstarts ⊢
  exact .fields hmodifiers hstarts hfront hds ht

theorem gives_typedMember (hr : r.Outlined) (kind : BodyKind) :
    Gives (typedMember r kind m line) (FinishesMember kind m line) := by
  refine gives_front fun type => ?_
  refine gives_peekTwo fun t next => ?_
  dsimp only
  split
  · split
    · rename_i hkind
      rw [hkind]
      exact gives_elementRest
    · rename_i hkind
      exact gives_methodRest hr hkind
  · exact gives_fieldsRest type

end Members

omit [r.Balance] in
theorem isAnyWord_of_plainType {ts rest : List Token} {t : Token} {type : TypeUse}
    (h : Takes (plainType r) (t :: ts) type rest) : isAnyWord t = true := by
  obtain ⟨element, mid, helement, -⟩ := takes_bind.mp h
  obtain ⟨u, late, hpeek, hname⟩ := takes_bind.mp helement
  obtain ⟨rfl, hhead⟩ := takes_peek hpeek
  obtain rfl := Option.some.inj hhead
  split at hname
  · obtain ⟨n, last, hidentifier, -⟩ := takes_bind.mp hname
    obtain ⟨v, s, heq, hs, -⟩ := takes_identifier hidentifier
    obtain ⟨rfl, -⟩ := List.cons.inj heq
    exact isAnyWord_iff.mpr ⟨s, hs⟩
  · obtain ⟨span, last, hspan, -⟩ := takes_bind.mp hname
    obtain ⟨first, next, hsegment, -⟩ := takes_bind.mp (takes_withSpan hspan).1
    obtain ⟨v, after, hword, -⟩ := takes_bind.mp hsegment
    obtain ⟨heq, hv⟩ := takes_tokenWhere hword
    obtain ⟨rfl, -⟩ := List.cons.inj heq
    exact (Bool.and_eq_true_iff.mp hv).1

theorem startsMember_of_append {us rest : List Token} (hus : us ≠ [])
    (h : StartsMember (us ++ rest)) : StartsMember us := by
  obtain ⟨t, more, heq, hword, hmodifier, htype⟩ := h
  obtain ⟨u, us, rfl⟩ := List.exists_cons_of_ne_nil hus
  obtain ⟨rfl, rfl⟩ := List.cons.inj heq
  refine ⟨u, us, rfl, hword, ?_⟩
  cases us with
  | cons v us => exact ⟨hmodifier, htype⟩
  | nil =>
    constructor
    · unfold isModifier at hmodifier ⊢
      split
      · rename_i s hkind
        rw [hkind] at hmodifier
        simpa using (Bool.or_eq_false_iff.mp hmodifier).1
      · rfl
    · unfold startsType at htype ⊢
      simpa using (Bool.or_eq_false_iff.mp htype).1

theorem gives_modifiedMember (hr : r.Outlined) (kind : BodyKind) :
    Gives (modifiedMember r kind) fun us m => ∀ ts members, BodyTokens kind ts members →
      BodyTokens kind (us ++ ts) (m :: members) := by
  refine gives_start fun start => ?_
  intro ts member rest htakes
  obtain ⟨m, mid, htaken, h⟩ := takes_bind.mp htakes
  obtain ⟨⟨t, next⟩, late, hpeek, h⟩ := takes_bind.mp h
  have hnext := takes_peekTwo_next hpeek
  obtain ⟨rfl, hhead⟩ := takes_peekTwo hpeek
  obtain ⟨modifiers, rfl, hmodifiers⟩ := gives_modifiers hr _ _ _ htaken
  cases late with
  | nil => cases hhead
  | cons u more =>
  obtain rfl := Option.some.inj hhead
  obtain rfl : next = more.head? := hnext
  have hmodifier := isModifier_of_modifiers hr htaken
  dsimp only at h
  split at h
  · split at h
    · exact absurd h not_takes_refuse
    · obtain ⟨d, late, hd, hpure⟩ := takes_bind.mp h
      obtain ⟨rfl, rfl⟩ := takes_pure.mp hpure
      obtain ⟨us, hus, hfinishes⟩ := hr.typeDeclaration _ _ _ _ _ hd
      refine ⟨modifiers ++ us, by rw [hus, List.append_assoc],
        List.append_ne_nil_of_right_ne_nil _ hfinishes.ne_nil, ?_⟩
      intro hline ts members hts
      exact .type (hfinishes.tokens modifiers hmodifiers hline) hts
  · rename_i htype
    have hmember : (isAnyWord u || isSign "<" u) = true ∧
        ∃ us, u :: more = us ++ rest ∧ FinishesMember kind m start.line us member := by
      split at h
      · rename_i hgeneric
        obtain ⟨hangle, hkind⟩ := Bool.and_eq_true_iff.mp hgeneric
        have hkind : kind ≠ .annotationType := of_decide_eq_true hkind
        refine ⟨by rw [hangle, Bool.or_true], ?_⟩
        refine gives_front (fun _ => gives_front fun _ => gives_peekTwo fun u after => ?_) _ _ _ h
        dsimp only
        split
        · exact gives_constructorRest hkind
        · exact gives_front fun _ => gives_methodRest hr hkind
      · split at h
        · rename_i hgeneral
          obtain ⟨hnamed, hkind⟩ := Bool.and_eq_true_iff.mp hgeneral
          have hkind : kind = .general := of_decide_eq_true hkind
          refine ⟨by rw [(Bool.and_eq_true_iff.mp hnamed).1, Bool.true_or], ?_⟩
          exact gives_constructorRest (hkind ▸ nofun) _ _ _ h
        · split at h
          · rename_i hgeneral
            obtain ⟨hnamed, hkind⟩ := Bool.and_eq_true_iff.mp hgeneral
            have hkind : kind = .general := of_decide_eq_true hkind
            refine ⟨by rw [(Bool.and_eq_true_iff.mp hnamed).1, Bool.true_or], ?_⟩
            exact gives_compactConstructorRest hr (hkind ▸ nofun) _ _ _ h
          · obtain ⟨type, late, hplain, -⟩ := takes_bind.mp h
            refine ⟨by rw [isAnyWord_of_plainType hplain, Bool.true_or], ?_⟩
            exact gives_typedMember hr kind _ _ _ h
    obtain ⟨hword, us, hus, hfinishes⟩ := hmember
    have hstarts : StartsMember us := by
      apply startsMember_of_append hfinishes.ne_nil
      rw [← hus]
      exact ⟨u, more, rfl, hword, hmodifier, eq_false_of_ne_true htype⟩
    refine ⟨modifiers ++ us, by rw [hus, List.append_assoc],
      List.append_ne_nil_of_right_ne_nil _ hfinishes.ne_nil, ?_⟩
    intro hline ts members hts
    exact .member (hfinishes.tokens modifiers [] hmodifiers (.nil _) hstarts hline) hts

theorem gives_member (hr : r.Outlined) (kind : BodyKind) :
    Gives (member r kind) fun us o => ∀ ts members, BodyTokens kind ts members →
      BodyTokens kind (us ++ ts) (o.toList ++ members) := by
  refine gives_peekTwo_head fun t next => ?_
  dsimp only
  split
  · refine (gives_sign ";").bind ?_
    rintro _ u ⟨rfl, hu⟩
    exact gives_pure fun _ ts members hts => .semicolon hu hts
  · split
    · rename_i hgeneral
      obtain rfl : kind = .general := of_decide_eq_true (Bool.and_eq_true_iff.mp hgeneral).2
      refine hr.block.bind ?_
      intro block _ hblock
      apply gives_pure
      intro _ ts members hts
      rw [List.append_nil]
      exact .initializer (.inl rfl) hblock hts
    · split
      · rename_i hstatic
        obtain ⟨hopens, hgeneral⟩ := Bool.and_eq_true_iff.mp hstatic
        obtain rfl : kind = .general := of_decide_eq_true hgeneral
        have ht : t.kind = .word "static" := of_decide_eq_true (Bool.and_eq_true_iff.mp hopens).1
        refine gives_identifier.bind ?_
        rintro _ _ ⟨u, rfl, -⟩
        refine hr.block.bind ?_
        intro block _ hblock
        apply gives_pure
        intro hhead ts members hts
        obtain rfl := hhead u rfl
        rw [List.append_nil, List.append_assoc]
        exact .initializer (.inr ⟨u, rfl, ht⟩) hblock hts
      · refine (gives_modifiedMember hr kind).bind ?_
        intro us m hus
        apply gives_pure
        intro _
        rw [List.append_nil]
        exact hus

theorem gives_membersRule (hr : r.Outlined) (kind : BodyKind) :
    Gives (membersRule r kind) (BodyTokens kind) := by
  have hall : Gives (many (member r kind)) fun us all => BodyTokens kind us (all.filterMap id) := by
    refine (gives_member hr kind).many (.nil kind) ?_
    intro us o vs all hus hvs
    have heq : (o :: all).filterMap id = o.toList ++ all.filterMap id := by cases o <;> rfl
    rw [heq]
    exact hus _ _ hvs
  refine hall.bind ?_
  intro us all hus
  exact gives_pure (by simpa using hus)

end Rules

end LookupGen.Java
