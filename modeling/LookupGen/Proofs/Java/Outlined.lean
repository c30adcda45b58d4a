import LookupGen.Proofs.Java.Pieces

/-!
# Types and their outlines

The types that the grammar takes are those of the outline. A rule is followed token by token as far
as it declares something; of all other rules it is enough that their brackets match.

This module does NOT say what the members between the braces are: the rule for them is one of the
rules that are given.
-/

namespace LookupGen.Java

open Java.Parser

structure FinishesDeclaration (m : Modifiers) (line : Nat) (us : List Token) (d : TypeDeclaration) :
    Prop where
  ne_nil : us ≠ []
  tokens : ∀ modifiers, ModifierTokens m.annotations.length modifiers →
    StartsOn line (modifiers ++ us) → TypeTokens (modifiers ++ us) d

structure Rules.Outlined (r : Rules) : Prop where
  annotationUse : Gives r.annotationUse fun us _ => AnnotationTokens us
  block : Gives r.block fun us _ => Bracketed "\x7b" "\x7d" us
  typeDeclaration : ∀ m line, Gives (r.typeDeclaration m line) (FinishesDeclaration m line)
  members : ∀ kind, Gives (r.members kind) (BodyTokens kind)
  statement : Gives r.statement fun us o => ∀ item, o = some item → ItemTokens us item

section Rules

variable {r : Rules} [r.Balance]

theorem gives_arguments : Gives (arguments r) fun us _ => Bracketed "(" ")" us :=
  (gives_enclosed "(" ")").ignore.mono fun _ _ h => h.choose_spec

theorem gives_classBody : Gives (classBody r) fun us _ => Bracketed "\x7b" "\x7d" us :=
  (gives_enclosed "\x7b" "\x7d").ignore.mono fun _ _ h => h.choose_spec

theorem gives_blockRule : Gives (blockRule r) fun us _ => Bracketed "\x7b" "\x7d" us :=
  (gives_enclosed "\x7b" "\x7d").ignore.mono fun _ _ h => h.choose_spec

theorem gives_annotationRule : Gives (annotationRule r) fun us _ => AnnotationTokens us := by
  have harguments (name : Written) : Gives (do
      let t ← peek
      if isSign "(" t then do
        let values ← annotationArguments r
        pure (AnnotationUse.mk name values)
      else pure (.mk name [])) fun us _ => MayBracket "(" ")" us := by
    refine gives_peek fun t => ?_
    split
    · refine Gives.bind (P := fun us _ => Bracketed "(" ")" us) ?_ ?_
      · exact (gives_enclosed "(" ")").orElse (gives_enclosed "(" ")")
      · intro us values hus
        exact gives_pure (.inr (by simpa using hus))
    · exact gives_pure (.inl rfl)
  unfold annotationRule
  refine (gives_sign "@").bind ?_
  rintro _ t ⟨rfl, ht⟩
  refine gives_qualifiedName.bind ?_
  rintro name _ ⟨hname, -⟩
  refine (harguments _).mono ?_
  intro us _ hus
  simpa using AnnotationTokens.mk ht hname hus

theorem modifierTokens_token {n : Nat} {t : Token} {s : String} {ts : List Token}
    (ht : t.kind = .word s) (hs : s ∈ modifierWords ∨ s = "sealed") (hts : ModifierTokens n ts) :
    ModifierTokens (0 + n) ([t] ++ ts) := by
  rw [Nat.zero_add]
  exact .word ht hs hts

theorem gives_nonSealed : Gives nonSealed fun us _ => us ≠ [] ∧
    ∀ n ts, ModifierTokens n ts → ModifierTokens n (us ++ ts) := by
  intro ts u rest h
  obtain ⟨t, mid, hnon, h⟩ := takes_bind.mp h
  obtain ⟨v, late, hminus, h⟩ := takes_bind.mp h
  obtain ⟨w, hsealed⟩ := takes_ignore.mp h
  obtain ⟨rfl, ht⟩ := takes_keyword hnon
  obtain ⟨rfl, hv⟩ := takes_tokenWhere hminus
  obtain ⟨rfl, hw⟩ := takes_tokenWhere hsealed
  refine ⟨[t, v, w], rfl, List.cons_ne_nil _ _, fun n ts hts => .nonSealed ht ?_ ?_ hts⟩
  · exact of_decide_eq_true (Bool.and_eq_true_iff.mp hv).1
  · exact of_decide_eq_true (Bool.and_eq_true_iff.mp hw).1

omit [r.Balance] in
theorem gives_modifier (hr : r.Outlined) : Gives (modifier r) fun us m => us ≠ [] ∧
    ∀ n ts, ModifierTokens n ts → ModifierTokens (m.1.toList.length + n) (us ++ ts) := by
  intro ts m rest htakes
  obtain ⟨⟨t, next⟩, mid, hpeek, h⟩ := takes_bind.mp htakes
  obtain ⟨rfl, hhead⟩ := takes_peekTwo hpeek
  have hword {s : String} {n : Name} {late : List Token} (ht : t.kind = .word s)
      (hs : s ∈ modifierWords ∨ s = "sealed") (h : Takes identifier mid n late) :
      ∃ us, mid = us ++ late ∧ us ≠ [] ∧
        ∀ n ts, ModifierTokens n ts → ModifierTokens (0 + n) (us ++ ts) := by
    obtain ⟨u, s', rfl, -, -⟩ := takes_identifier h
    obtain rfl := Option.some.inj hhead
    exact ⟨[u], rfl, List.cons_ne_nil u [], fun n ts hts => modifierTokens_token ht hs hts⟩
  dsimp only at h
  split at h
  · obtain ⟨a, late, ha, hpure⟩ := takes_bind.mp h
    obtain ⟨rfl, rfl⟩ := takes_pure.mp hpure
    obtain ⟨us, hus, htokens⟩ := hr.annotationUse _ _ _ ha
    refine ⟨us, hus, htokens.ne_nil, ?_⟩
    intro n ts hts
    rw [Option.toList_some, List.length_singleton, Nat.add_comm]
    exact .marked htokens hts
  · rename_i s hkind
    split at h
    · rename_i hs
      obtain ⟨n, late, hn, hpure⟩ := takes_bind.mp h
      obtain ⟨rfl, rfl⟩ := takes_pure.mp hpure
      exact hword hkind (.inl (List.contains_iff_mem.mp hs)) hn
    · split at h
      · rename_i hs
        obtain ⟨n, late, hn, hpure⟩ := takes_bind.mp h
        obtain ⟨rfl, rfl⟩ := takes_pure.mp hpure
        exact hword hkind (.inr hs.1) hn
      · obtain ⟨u, late, hnon, hpure⟩ := takes_bind.mp h
        obtain ⟨rfl, rfl⟩ := takes_pure.mp hpure
        obtain ⟨us, hus, hne, htokens⟩ := gives_nonSealed _ _ _ hnon
        refine ⟨us, hus, hne, ?_⟩
        intro n ts hts
        rw [Option.toList_none, List.length_nil, Nat.zero_add]
        exact htokens n ts hts
  · exact absurd h not_takes_refuse

omit [r.Balance] in
theorem gives_modifiers (hr : r.Outlined) :
    Gives (modifiers r) fun us m => ModifierTokens m.annotations.length us := by
  have hall : Gives (many (modifier r)) fun us all =>
      ModifierTokens (all.filterMap (·.1)).length us := by
    refine (gives_modifier hr).many .nil ?_
    intro us m vs all hus hvs
    have heq : ((m :: all).filterMap (·.1)).length =
        m.1.toList.length + (all.filterMap (·.1)).length := by
      cases hm : m.1 with
      | none => simp [hm]
      | some a => simp [hm, Nat.add_comm]
    rw [heq]
    exact hus.2 _ _ hvs
  unfold modifiers
  refine hall.bind ?_
  intro us all hus
  exact gives_pure (by simpa using hus)

omit [r.Balance] in
theorem takes_modifier {t : Token} {rest : List Token} (h : isModifier t rest.head? = true) :
    ∃ m, Takes (modifier r) (t :: rest) m rest := by
  unfold isModifier at h
  split at h
  · rename_i s hkind
    have hidentifier : Takes identifier (t :: rest) (Text.ofString s) rest := by
      refine ⟨0, ?_⟩
      simp only [identifier, hkind]
    have hpeek : Takes peekTwo (t :: rest) (t, rest.head?) (t :: rest) := ⟨0, rfl⟩
    have htaken (m : Option AnnotationUse × Bool) : Takes (do
        let _ ← identifier
        pure m) (t :: rest) m rest :=
      takes_bind.mpr ⟨_, rest, hidentifier, takes_pure.mpr ⟨rfl, rfl⟩⟩
    by_cases hs : modifierWords.contains s = true
    · refine ⟨(none, s == "final"), takes_bind.mpr ⟨_, _, hpeek, ?_⟩⟩
      simp only [hkind, hs, if_true]
      exact htaken _
    · have hsealed : s = "sealed" ∧
          rest.head?.any (fun u => isAnyWord u || isSign "@" u) = true := by
        rw [eq_false_of_ne_true hs, Bool.false_or, Bool.and_eq_true_iff] at h
        exact ⟨beq_iff_eq.mp h.1, h.2⟩
      refine ⟨(none, false), takes_bind.mpr ⟨_, _, hpeek, ?_⟩⟩
      simp only [hkind, if_neg hs, if_pos hsealed]
      exact htaken _
  · cases h

omit [r.Balance] in
theorem isModifier_of_modifiers (hr : r.Outlined) {ts rest : List Token} {m : Modifiers} {t : Token}
    (h : Takes (modifiers r) ts m (t :: rest)) : isModifier t rest.head? = false := by
  obtain ⟨all, mid, hall, hpure⟩ := takes_bind.mp h
  obtain ⟨-, rfl⟩ := takes_pure.mp hpure
  refine eq_false_of_ne_true fun hmodifier => ?_
  obtain ⟨m, htaken⟩ := takes_modifier (r := r) hmodifier
  refine not_takes_of_many ?_ hall htaken
  intro ts rest m h
  obtain ⟨us, rfl, hne, -⟩ := gives_modifier hr _ _ _ h
  rw [List.length_append]
  exact Nat.lt_add_of_pos_left (List.length_pos_iff.mpr hne)

theorem StartsOn.append {line : Nat} {ts : List Token} (h : StartsOn line ts) (us : List Token) :
    StartsOn line (ts ++ us) := by
  obtain ⟨t, rest, rfl, ht⟩ := h
  exact ⟨t, rest ++ us, rfl, ht⟩

theorem StartsOn.left {line : Nat} {ts us : List Token} (h : StartsOn line (ts ++ us))
    (hts : ts ≠ []) : StartsOn line ts := by
  obtain ⟨t, rest, rfl⟩ := List.exists_cons_of_ne_nil hts
  obtain ⟨u, more, heq, hu⟩ := h
  obtain ⟨rfl, -⟩ := List.cons.inj heq
  exact ⟨t, rest, rfl, hu⟩

theorem HeaderTokens.append {kind : TypeKind} {m : Modifiers} {name : Name} {line : Nat}
    {header us : List Token} (h : HeaderTokens kind m name line header)
    (hus : Balanced .header us) : HeaderTokens kind m name line (header ++ us) := by
  cases h with
  | mk hmodifiers ht hu hrest hline =>
    have hline := hline.append us
    simp only [List.append_assoc, List.cons_append] at hline ⊢
    exact .mk hmodifiers ht hu (hrest.append hus) hline

def FinishesType (kind : TypeKind) (m : Modifiers) (name : Name) (line : Nat) (us : List Token)
    (d : TypeDeclaration) : Prop :=
  ∀ header, HeaderTokens kind m name line header → TypeTokens (header ++ us) d

section Types

variable {kind : TypeKind} {m : Modifiers} {name : Name} {line : Nat}

theorem gives_header {α : Type} {p : Parser α} {k : α → Parser TypeDeclaration} [Balances .header p]
    (hk : ∀ a, Gives (k a) (FinishesType kind m name line)) :
    Gives (p >>= k) (FinishesType kind m name line) := by
  refine (gives_of_balances .header).bind ?_
  intro us a hus
  refine (hk a).mono ?_
  intro vs d hvs header hheader
  rw [← List.append_assoc]
  exact hvs _ (hheader.append hus)

omit [r.Balance] in
theorem gives_typeBody (hr : r.Outlined) (kind : TypeKind) (hkind : kind ≠ .enumeration) : Gives (do
    let members ← enclosed "\x7b" (r.members (bodyKind kind)) "\x7d"
    pure (TypeDeclaration.mk kind m name line members)) (FinishesType kind m name line) := by
  refine (gives_enclosed_of (hr.members _) "\x7b" "\x7d").bind ?_
  rintro _ members ⟨t, inner, u, rfl, ht, hinner, hu⟩
  apply gives_pure
  intro header hheader
  rw [List.append_nil]
  exact .body hkind hheader ht hinner hu

theorem gives_constant (hr : r.Outlined) : Gives (do
    let start ← peek
    let own ← modifiers r
    let constantName ← identifier
    let next ← peek
    if isSign "(" next then arguments r else pure ()
    let after ← peek
    if isSign "\x7b" after then classBody r else pure ()
    pure (Member.constant own constantName start.line)) ConstantTokens := by
  refine gives_start fun start => ?_
  refine (gives_modifiers hr).bind ?_
  intro modifiers own hmodifiers
  refine gives_identifier.bind ?_
  rintro _ name ⟨t, rfl, ht⟩
  refine gives_mayBracket _ gives_arguments ?_
  intro arguments harguments
  refine gives_mayBracket _ gives_classBody ?_
  intro body hbody
  apply gives_pure
  refine ⟨by simp, fun hline => ?_⟩
  simp only [List.append_nil, List.cons_append, List.nil_append] at hline ⊢
  exact .mk hmodifiers ht harguments hbody hline

theorem gives_enumBody (hr : r.Outlined) : Gives (do
    let constant : Parser Member := do
      let start ← peek
      let own ← modifiers r
      let constantName ← identifier
      let next ← peek
      if isSign "(" next then arguments r else pure ()
      let after ← peek
      if isSign "\x7b" after then classBody r else pure ()
      pure (.constant own constantName start.line)
    let _ ← sign "\x7b"
    let constants ← commaSeparated constant
    let _ ← optional (sign ",")
    let members ← optional (do
      let _ ← sign ";"
      r.members .general)
    let _ ← sign "\x7d"
    pure (TypeDeclaration.mk .enumeration m name line (constants ++ members.getD [])))
      (FinishesType .enumeration m name line) := by
  have hrest : Gives (do
      let _ ← sign ";"
      r.members .general) fun us members =>
        ∃ t inner, us = t :: inner ∧ t.kind = .sign ";" ∧ BodyTokens .general inner members := by
    refine (gives_sign ";").bind ?_
    rintro _ t ⟨rfl, ht⟩
    exact (hr.members .general).mono fun inner members hinner => ⟨t, inner, rfl, ht, hinner⟩
  refine (gives_sign "\x7b").bind ?_
  rintro _ t ⟨rfl, ht⟩
  refine (gives_constant hr).commaListed.bind ?_
  intro inner constants hconstants
  refine (gives_sign ",").optional.bind ?_
  intro comma o hcomma
  refine hrest.optional.bind ?_
  intro rest members hmembers
  refine (gives_sign "\x7d").bind ?_
  rintro _ u ⟨rfl, hu⟩
  apply gives_pure
  intro header hheader
  have hcomma : comma = [] ∨ ∃ v, comma = [v] ∧ v.kind = .sign "," := by
    rcases hcomma with ⟨-, rfl⟩ | ⟨v, -, rfl, hv⟩
    · exact .inl rfl
    · exact .inr ⟨v, rfl, hv⟩
  have hrest : RestTokens rest (members.getD []) := by
    rcases hmembers with ⟨rfl, rfl⟩ | ⟨members, rfl, v, inner, rfl, hv, hinner⟩
    · exact .none
    · exact .some hv hinner
  simpa using TypeTokens.enumeration hheader ht hconstants hcomma hrest hu

end Types

theorem typeTokens_of_finishes (kind : TypeKind) {m : Modifiers} {line : Nat} {t : Token}
    {mid rest : List Token} {d : TypeDeclaration} {k : Name → Parser TypeDeclaration}
    (ht : t.kind = typeKeyword kind) (h : Takes (identifier >>= k) mid d rest)
    (hk : ∀ name, Gives (k name) (FinishesType kind m name line)) :
    ∃ us, t :: mid = us ++ rest ∧ FinishesDeclaration m line us d := by
  obtain ⟨name, late, hname, hrest⟩ := takes_bind.mp h
  obtain ⟨_, rfl, u, rfl, hu⟩ := gives_identifier _ _ _ hname
  obtain ⟨us, rfl, hus⟩ := hk name _ _ _ hrest
  refine ⟨t :: u :: us, rfl, List.cons_ne_nil _ _, ?_⟩
  intro modifiers hmodifiers hline
  have hstarts : StartsOn line ((modifiers ++ [t, u]) ++ us) := by simpa using hline
  have hheader : HeaderTokens kind m name line (modifiers ++ [t, u]) :=
    .mk hmodifiers ht hu (.nil _) (hstarts.left (by simp))
  simpa using hus _ hheader

theorem gives_typeDeclarationRule (hr : r.Outlined) (m : Modifiers) (line : Nat) :
    Gives (typeDeclarationRule r m line) (FinishesDeclaration m line) := by
  intro ts d rest htakes
  obtain ⟨t, mid, hpeek, h⟩ := takes_bind.mp htakes
  obtain ⟨rfl, hhead⟩ := takes_peek hpeek
  dsimp only at h
  have hword (kind : TypeKind) {k : Name → Parser TypeDeclaration}
      (ht : t.kind = typeKeyword kind)
      (h : Takes (identifier >>= fun _ => identifier >>= k) mid d rest)
      (hk : ∀ name, Gives (k name) (FinishesType kind m name line)) :
      ∃ us, mid = us ++ rest ∧ FinishesDeclaration m line us d := by
    obtain ⟨word, late, hword, hnext⟩ := takes_bind.mp h
    obtain ⟨u, -, rfl, -, -⟩ := takes_identifier hword
    obtain rfl := Option.some.inj hhead
    exact typeTokens_of_finishes kind ht hnext hk
  split at h
  · rename_i hkind
    obtain ⟨u, late, hsign, hnext⟩ := takes_bind.mp h
    obtain ⟨rfl, -⟩ := takes_tokenWhere hsign
    obtain rfl := Option.some.inj hhead
    exact typeTokens_of_finishes .annotationType hkind hnext fun name =>
      gives_typeBody hr .annotationType (by decide)
  · rename_i hkind
    refine hword .ordinary hkind h fun name => ?_
    exact gives_header fun _ => gives_header fun _ => gives_header fun _ => gives_header fun _ =>
      gives_typeBody hr .ordinary (by decide)
  · rename_i hkind
    refine hword .interface hkind h fun name => ?_
    exact gives_header fun _ => gives_header fun _ => gives_header fun _ =>
      gives_typeBody hr .interface (by decide)
  · rename_i hkind
    refine hword .record hkind h fun name => ?_
    exact gives_header fun _ => gives_header fun _ => gives_header fun _ =>
      gives_typeBody hr .record (by decide)
  · rename_i hkind
    refine hword .enumeration hkind h fun name => ?_
    exact gives_header fun _ => gives_enumBody hr
  · exact absurd h not_takes_refuse

end Rules

end LookupGen.Java
