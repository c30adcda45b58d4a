import LookupGen.Proofs.Java.Outline

/-!
# Taken pieces

What a parser takes, said of the tokens and the value together, with a rule for each way to put
parsers together.

This module does NOT say when a parser refuses.
-/

namespace LookupGen.Java

namespace Parser

variable {α β : Type} {p q : Parser α} {k : α → Parser β}

/-- The tokens that a parser takes are as its value has it. -/
def Gives (p : Parser α) (P : List Token → α → Prop) : Prop :=
  ∀ ts a rest, Takes p ts a rest → ∃ us, ts = us ++ rest ∧ P us a

theorem gives_pure {P : List Token → α → Prop} {a : α} (h : P [] a) : Gives (pure a) P := by
  intro ts b rest htakes
  obtain ⟨rfl, rfl⟩ := takes_pure.mp htakes
  exact ⟨[], rfl, h⟩

theorem gives_refuse {P : List Token → α → Prop} : Gives (refuse : Parser α) P :=
  fun _ _ _ h => absurd h not_takes_refuse

theorem gives_of_balances (f : Surface) [Balances f p] : Gives p fun us _ => Balanced f us :=
  fun _ _ _ h => Balances.taken h

theorem Gives.mono {P Q : List Token → α → Prop} (h : Gives p P) (hPQ : ∀ us a, P us a → Q us a) :
    Gives p Q := by
  intro ts a rest htakes
  obtain ⟨us, hts, hus⟩ := h ts a rest htakes
  exact ⟨us, hts, hPQ us a hus⟩

theorem Gives.bind {P : List Token → α → Prop} {Q : List Token → β → Prop} (hp : Gives p P)
    (hk : ∀ us a, P us a → Gives (k a) fun vs b => Q (us ++ vs) b) : Gives (p >>= k) Q := by
  intro ts b rest htakes
  obtain ⟨a, mid, hleft, hright⟩ := takes_bind.mp htakes
  obtain ⟨us, rfl, hus⟩ := hp _ _ _ hleft
  obtain ⟨vs, rfl, hvs⟩ := hk us a hus _ _ _ hright
  exact ⟨us ++ vs, (List.append_assoc us vs rest).symm, hvs⟩

theorem Gives.ignore {P : List Token → α → Prop} (hp : Gives p P) :
    Gives (ignore p) fun us _ => ∃ a, P us a := by
  intro ts u rest h
  obtain ⟨a, h⟩ := takes_ignore.mp h
  obtain ⟨us, hts, hus⟩ := hp _ _ _ h
  exact ⟨us, hts, a, hus⟩

theorem Gives.orElse {P : List Token → α → Prop} (hp : Gives p P) (hq : Gives q P) :
    Gives (orElse p q) P := by
  intro ts a rest h
  rcases takes_orElse h with h | h
  · exact hp _ _ _ h
  · exact hq _ _ _ h

theorem gives_firstOf {P : List Token → α → Prop} {ps : List (Parser α)} (h : ∀ p ∈ ps, Gives p P) :
    Gives (firstOf ps) P := by
  intro ts a rest htakes
  obtain ⟨p, hp, htakes⟩ := takes_firstOf htakes
  exact h p hp _ _ _ htakes

theorem Gives.optional {P : List Token → α → Prop} (hp : Gives p P) :
    Gives (optional p) fun us o => o = none ∧ us = [] ∨ ∃ a, o = some a ∧ P us a := by
  intro ts o rest h
  rcases takes_optional h with ⟨a, rfl, htaken⟩ | ⟨rfl, rfl⟩
  · obtain ⟨us, hts, hus⟩ := hp _ _ _ htaken
    exact ⟨us, hts, .inr ⟨a, rfl, hus⟩⟩
  · exact ⟨[], rfl, .inl ⟨rfl, rfl⟩⟩

theorem gives_peek {P : List Token → β → Prop} {k : Token → Parser β} (hk : ∀ t, Gives (k t) P) :
    Gives (peek >>= k) P := by
  intro ts b rest htakes
  obtain ⟨t, mid, hpeek, h⟩ := takes_bind.mp htakes
  obtain ⟨rfl, -⟩ := takes_peek hpeek
  exact hk t _ _ _ h

theorem gives_peekTwo_head {P : List Token → β → Prop} {k : Token × Option Token → Parser β}
    (hk : ∀ t next, Gives (k (t, next)) fun us b => (∀ u ∈ us.head?, u = t) → P us b) :
    Gives (peekTwo >>= k) P := by
  intro ts b rest htakes
  obtain ⟨⟨t, next⟩, mid, hpeek, h⟩ := takes_bind.mp htakes
  obtain ⟨rfl, hhead⟩ := takes_peekTwo hpeek
  obtain ⟨us, rfl, hus⟩ := hk t next _ _ _ h
  refine ⟨us, rfl, hus ?_⟩
  intro u hu
  rw [List.head?_append, Option.mem_def.mp hu] at hhead
  exact Option.some.inj hhead

theorem gives_peekTwo {P : List Token → β → Prop} {k : Token × Option Token → Parser β}
    (hk : ∀ t next, Gives (k (t, next)) P) : Gives (peekTwo >>= k) P :=
  gives_peekTwo_head fun t next => (hk t next).mono fun _ _ h _ => h

theorem gives_start {P : List Token → β → Prop} {k : Token → Parser β}
    (hk : ∀ t, Gives (k t) fun us b => us ≠ [] ∧ (StartsOn t.line us → P us b)) :
    Gives (peek >>= k) P := by
  intro ts b rest htakes
  obtain ⟨t, mid, hpeek, h⟩ := takes_bind.mp htakes
  obtain ⟨rfl, hhead⟩ := takes_peek hpeek
  obtain ⟨us, rfl, hne, hus⟩ := hk t _ _ _ h
  obtain ⟨u, more, rfl⟩ := List.exists_cons_of_ne_nil hne
  obtain rfl := Option.some.inj hhead
  exact ⟨u :: more, rfl, hus ⟨u, more, rfl, rfl⟩⟩

theorem gives_sign (s : String) : Gives (sign s) fun us t => us = [t] ∧ t.kind = .sign s := by
  intro ts t rest h
  obtain ⟨rfl, ht⟩ := takes_sign h
  exact ⟨[t], rfl, rfl, ht⟩

theorem gives_keyword (s : String) : Gives (keyword s) fun us t => us = [t] ∧ t.kind = .word s := by
  intro ts t rest h
  obtain ⟨rfl, ht⟩ := takes_keyword h
  exact ⟨[t], rfl, rfl, ht⟩

theorem gives_identifier : Gives identifier fun us n => ∃ t, us = [t] ∧ t.Names n := by
  intro ts n rest h
  obtain ⟨t, s, rfl, ht, hn⟩ := takes_identifier h
  exact ⟨[t], rfl, t, rfl, s, ht, hn⟩

theorem gives_qualifiedName : Gives qualifiedName fun us w =>
    Dotted us ∧ w = Glyph.text (Token.span us) := fun _ _ _ h => takes_qualifiedName h

theorem gives_enclosed [Balances .body p] (opening closing : String) :
    Gives (enclosed opening p closing) fun us _ => Bracketed opening closing us :=
  fun _ _ _ h => bracketed_of_enclosed h

theorem gives_enclosed_of {P : List Token → α → Prop} (hp : Gives p P) (opening closing : String) :
    Gives (enclosed opening p closing) fun us a => ∃ t inner u, us = t :: (inner ++ [u]) ∧
      t.kind = .sign opening ∧ P inner a ∧ u.kind = .sign closing := by
  unfold enclosed
  refine (gives_sign opening).bind ?_
  rintro _ t ⟨rfl, ht⟩
  refine hp.bind ?_
  intro inner a hinner
  refine (gives_sign closing).bind ?_
  rintro _ u ⟨rfl, hu⟩
  exact gives_pure ⟨t, inner, u, by simp, ht, hinner, hu⟩

theorem gives_mayBracket {Q : List Token → β → Prop} {opening closing : String} {p : Parser Unit}
    {k : Parser β} (c : Token → Bool) (hp : Gives p fun us _ => Bracketed opening closing us)
    (hk : ∀ us, MayBracket opening closing us → Gives k fun vs b => Q (us ++ vs) b) :
    Gives (peek >>= fun t => if c t = true then p >>= fun _ => k else k) Q := by
  refine gives_peek fun t => ?_
  split
  · exact hp.bind fun us _ hus => hk us (.inr hus)
  · exact hk [] (.inl rfl)

theorem Gives.repeats {P : List Token → α → Prop} {Q : List Token → List α → Prop} (hp : Gives p P)
    (hnil : Q [] []) (hcons : ∀ us a vs as, P us a → Q vs as → Q (us ++ vs) (a :: as))
    {ts rest : List Token} {all : List α} (h : Repeats p ts all rest) :
    ∃ us, ts = us ++ rest ∧ Q us all := by
  induction h with
  | stop ts => exact ⟨[], rfl, hnil⟩
  | next hfirst _ ih =>
    obtain ⟨us, rfl, hus⟩ := hp _ _ _ hfirst
    obtain ⟨vs, rfl, hvs⟩ := ih
    exact ⟨us ++ vs, (List.append_assoc us vs _).symm, hcons _ _ _ _ hus hvs⟩

theorem Gives.many {P : List Token → α → Prop} {Q : List Token → List α → Prop} (hp : Gives p P)
    (hnil : Q [] []) (hcons : ∀ us a vs as, P us a → Q vs as → Q (us ++ vs) (a :: as)) :
    Gives (many p) Q := fun _ _ _ h => hp.repeats hnil hcons (repeats_of_many h)

theorem Gives.listed {P : List Token → α → Prop} (hp : Gives p P) :
    Gives (separated p (sign ",")) (Listed P) := by
  have hmore : ∀ {ts rest : List Token} {more : List α},
      Repeats (do let _ ← sign ","; p) ts more rest → ∀ before a, P before a →
        ∃ us, ts = us ++ rest ∧ Listed P (before ++ us) (a :: more) := by
    intro ts rest more h
    induction h with
    | stop ts =>
      intro before a ha
      exact ⟨[], rfl, by simpa using .last ha⟩
    | next hfirst _ ih =>
      intro before a ha
      obtain ⟨t, mid, hsign, hpiece⟩ := takes_bind.mp hfirst
      obtain ⟨rfl, ht⟩ := takes_sign hsign
      obtain ⟨vs, rfl, hvs⟩ := hp _ _ _ hpiece
      obtain ⟨us, rfl, hus⟩ := ih vs _ hvs
      exact ⟨t :: (vs ++ us), by simp, .more ha ht hus⟩
  intro ts all rest h
  obtain ⟨a, mid, more, rfl, hfirst, hrepeats⟩ := takes_separated h
  obtain ⟨before, rfl, hbefore⟩ := hp _ _ _ hfirst
  obtain ⟨us, rfl, hus⟩ := hmore hrepeats before a hbefore
  exact ⟨before ++ us, (List.append_assoc before us rest).symm, hus⟩

theorem Gives.commaListed {P : List Token → α → Prop} (hp : Gives p P) :
    Gives (commaSeparated p) fun us all => us = [] ∧ all = [] ∨ Listed P us all := by
  intro ts all rest h
  rcases takes_commaSeparated h with h | ⟨rfl, rfl⟩
  · obtain ⟨us, hts, hus⟩ := hp.listed _ _ _ h
    exact ⟨us, hts, .inr hus⟩
  · exact ⟨[], rfl, .inl ⟨rfl, rfl⟩⟩

end Parser

end LookupGen.Java
