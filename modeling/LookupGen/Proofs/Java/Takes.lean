import LookupGen.Java.Grammar.Parser

/-!
# What parsers take

What it means that a parser takes some tokens and leaves others, for each way to put parsers
together. How far a parser looked does not matter here.
-/

namespace LookupGen.Java.Parser

variable {α β : Type}

/-- A parser gives a value and leaves some tokens. -/
def Takes (p : Parser α) (ts : List Token) (a : α) (rest : List Token) : Prop :=
  ∃ reach, p ts = .taken a rest reach

variable {p q : Parser α} {f : α → Parser β} {ts rest : List Token} {a : α} {b : β}

theorem Takes.unique {a' : α} {rest' : List Token} (h : Takes p ts a rest)
    (h' : Takes p ts a' rest') : a = a' ∧ rest = rest' := by
  obtain ⟨reach, h⟩ := h
  obtain ⟨reach', h'⟩ := h'
  cases h.symm.trans h'
  exact ⟨rfl, rfl⟩

theorem takes_pure {a' : α} : Takes (pure a') ts a rest ↔ a = a' ∧ rest = ts := by
  constructor
  · rintro ⟨reach, h⟩
    cases h
    exact ⟨rfl, rfl⟩
  · rintro ⟨rfl, rfl⟩
    exact ⟨0, rfl⟩

theorem takes_bind :
    Takes (p >>= f) ts b rest ↔ ∃ a mid, Takes p ts a mid ∧ Takes (f a) mid b rest := by
  constructor
  · rintro ⟨reach, h⟩
    change andThen p f ts = _ at h
    unfold andThen at h
    split at h
    · cases h
    · rename_i a mid first hp
      split at h
      · cases h
      · rename_i more hf
        cases h
        exact ⟨a, mid, ⟨first, hp⟩, ⟨_, hf⟩⟩
  · rintro ⟨a, mid, ⟨first, hp⟩, ⟨more, hf⟩⟩
    refine ⟨max first more, ?_⟩
    change andThen p f ts = _
    unfold andThen
    rw [hp]
    simp only [hf]

theorem takes_ignore {u : Unit} : Takes (ignore p) ts u rest ↔ ∃ a, Takes p ts a rest := by
  change Takes (p >>= fun _ => pure ()) ts u rest ↔ _
  rw [takes_bind]
  constructor
  · rintro ⟨a, mid, hp, hpure⟩
    obtain ⟨-, rfl⟩ := takes_pure.mp hpure
    exact ⟨a, hp⟩
  · rintro ⟨a, hp⟩
    exact ⟨a, rest, hp, takes_pure.mpr ⟨rfl, rfl⟩⟩

theorem not_takes_refuse : ¬ Takes (refuse : Parser α) ts a rest := by
  rintro ⟨reach, h⟩
  cases ts <;> cases h

theorem takes_orElse (h : Takes (orElse p q) ts a rest) :
    Takes p ts a rest ∨ Takes q ts a rest := by
  obtain ⟨reach, h⟩ := h
  unfold orElse at h
  split at h
  · rename_i hp
    cases h
    exact .inl ⟨_, hp⟩
  · split at h
    · rename_i hq
      cases h
      exact .inr ⟨_, hq⟩
    · cases h

theorem takes_firstOf {ps : List (Parser α)} (h : Takes (firstOf ps) ts a rest) :
    ∃ p ∈ ps, Takes p ts a rest := by
  induction ps with
  | nil => exact absurd h not_takes_refuse
  | cons p more ih =>
    cases more with
    | nil => exact ⟨p, List.mem_cons_self, h⟩
    | cons q more =>
      rcases takes_orElse h with h | h
      · exact ⟨p, List.mem_cons_self, h⟩
      · obtain ⟨r, hr, h⟩ := ih h
        exact ⟨r, List.mem_cons_of_mem p hr, h⟩

theorem takes_optional {o : Option α} (h : Takes (optional p) ts o rest) :
    (∃ a, o = some a ∧ Takes p ts a rest) ∨ o = none ∧ rest = ts := by
  rcases takes_orElse h with h | h
  · obtain ⟨a, mid, hp, hpure⟩ := takes_bind.mp h
    obtain ⟨rfl, rfl⟩ := takes_pure.mp hpure
    exact .inl ⟨a, rfl, hp⟩
  · exact .inr (takes_pure.mp h)

inductive Repeats (p : Parser α) : List Token → List α → List Token → Prop where
  | stop (ts : List Token) : Repeats p ts [] ts
  | next {ts mid rest : List Token} {a : α} {more : List α} (h : Takes p ts a mid)
      (hmore : Repeats p mid more rest) : Repeats p ts (a :: more) rest

theorem repeats_of_manyAlong {bound : List Token} {all : List α}
    (h : Takes (manyAlong p bound) ts all rest) : Repeats p ts all rest := by
  induction bound generalizing ts all with
  | nil =>
    obtain ⟨rfl, rfl⟩ := takes_pure.mp h
    exact .stop rest
  | cons _ bound ih =>
    rcases takes_orElse h with h | h
    · obtain ⟨a, mid, hp, h⟩ := takes_bind.mp h
      obtain ⟨more, last, hmore, hpure⟩ := takes_bind.mp h
      obtain ⟨rfl, rfl⟩ := takes_pure.mp hpure
      exact .next hp (ih hmore)
    · obtain ⟨rfl, rfl⟩ := takes_pure.mp h
      exact .stop rest

theorem repeats_of_many {all : List α} (h : Takes (many p) ts all rest) :
    Repeats p ts all rest := by
  have halong : Takes (manyAlong p ts) ts all rest := h
  exact repeats_of_manyAlong halong

theorem exists_takes_manyAlong (p : Parser α) (bound ts : List Token) :
    ∃ all rest, Takes (manyAlong p bound) ts all rest := by
  cases bound with
  | nil => exact ⟨[], ts, takes_pure.mpr ⟨rfl, rfl⟩⟩
  | cons _ bound =>
    unfold Takes manyAlong orElse
    split
    · exact ⟨_, _, _, rfl⟩
    · exact ⟨[], ts, _, rfl⟩

theorem not_takes_of_manyAlong (hp : ∀ {ts rest : List Token} {a : α}, Takes p ts a rest →
      rest.length < ts.length)
    {bound : List Token} {all : List α} (hbound : ts.length ≤ bound.length)
    (h : Takes (manyAlong p bound) ts all rest) {late : List Token} : ¬ Takes p rest a late := by
  -- By induction on the bound, which is no limit for a parser that takes at least one token:
  -- where the repetitions end the parser refuses.
  induction bound generalizing ts all with
  | nil =>
    obtain ⟨-, rfl⟩ := takes_pure.mp h
    intro hlast
    exact absurd (Nat.lt_of_lt_of_le (hp hlast) hbound) (Nat.not_lt_zero _)
  | cons _ bound ih =>
    obtain ⟨reach, h⟩ := h
    simp only [manyAlong, orElse] at h
    split at h
    · rename_i hnext
      cases h
      obtain ⟨b, mid, hfirst, hmore⟩ := takes_bind.mp ⟨_, hnext⟩
      obtain ⟨more, last, hmore, hpure⟩ := takes_bind.mp hmore
      obtain ⟨-, rfl⟩ := takes_pure.mp hpure
      have hlength := hp hfirst
      exact ih (by simp only [List.length_cons] at hbound; omega) hmore
    · rename_i hrefused
      cases h
      intro hlast
      obtain ⟨more, last, hmore⟩ := exists_takes_manyAlong p bound late
      have htaken : Takes (p >>= fun a => manyAlong p bound >>= fun more => pure (a :: more)) rest
          (a :: more) last :=
        takes_bind.mpr
          ⟨a, late, hlast, takes_bind.mpr ⟨more, last, hmore, takes_pure.mpr ⟨rfl, rfl⟩⟩⟩
      obtain ⟨reach, htaken⟩ := htaken
      cases hrefused.symm.trans htaken

theorem not_takes_of_many (hp : ∀ {ts rest : List Token} {a : α}, Takes p ts a rest →
      rest.length < ts.length) {all : List α} (h : Takes (many p) ts all rest) {late : List Token} :
    ¬ Takes p rest a late := by
  have halong : Takes (manyAlong p ts) ts all rest := h
  exact not_takes_of_manyAlong hp (Nat.le_refl _) halong

inductive Iterates (step : α → Parser α) : List Token → α → α → List Token → Prop where
  | stop (ts : List Token) (a : α) : Iterates step ts a a ts
  | next {ts mid rest : List Token} {a b c : α} (h : Takes (step a) ts b mid)
      (hmore : Iterates step mid b c rest) : Iterates step ts a c rest

theorem iterates_of_iterateAlong {step : α → Parser α} {bound : List Token} {c : α}
    (h : Takes (iterateAlong step bound a) ts c rest) : Iterates step ts a c rest := by
  induction bound generalizing ts a with
  | nil =>
    obtain ⟨rfl, rfl⟩ := takes_pure.mp h
    exact .stop rest c
  | cons _ bound ih =>
    obtain ⟨reach, h⟩ := h
    simp only [iterateAlong] at h
    split at h
    · cases h
      exact .stop rest c
    · rename_i b mid first hstep
      split at h
      · cases h
      · rename_i hmore
        cases h
        exact .next ⟨first, hstep⟩ (ih ⟨_, hmore⟩)

theorem iterates_of_iterate {step : α → Parser α} {c : α} (h : Takes (iterate step a) ts c rest) :
    Iterates step ts a c rest := by
  have halong : Takes (iterateAlong step ts a) ts c rest := h
  exact iterates_of_iterateAlong halong

theorem takes_separated {separator : Parser β} {all : List α}
    (h : Takes (separated p separator) ts all rest) :
    ∃ a mid more, all = a :: more ∧ Takes p ts a mid ∧
      Repeats (do let _ ← separator; p) mid more rest := by
  obtain ⟨a, mid, hp, h⟩ := takes_bind.mp h
  obtain ⟨more, last, hmore, hpure⟩ := takes_bind.mp h
  obtain ⟨rfl, rfl⟩ := takes_pure.mp hpure
  exact ⟨a, mid, more, rfl, hp, repeats_of_many hmore⟩

theorem takes_peek {t : Token} (h : Takes peek ts t rest) : rest = ts ∧ ts.head? = some t := by
  obtain ⟨reach, h⟩ := h
  cases ts with
  | nil => cases h
  | cons u us =>
    cases h
    exact ⟨rfl, rfl⟩

theorem takes_peekTwo {t : Token × Option Token} (h : Takes peekTwo ts t rest) :
    rest = ts ∧ ts.head? = some t.1 := by
  obtain ⟨reach, h⟩ := h
  cases ts with
  | nil => cases h
  | cons u us =>
    cases h
    exact ⟨rfl, rfl⟩

theorem takes_lookahead (h : Takes (lookahead p) ts a rest) : rest = ts := by
  obtain ⟨reach, h⟩ := h
  unfold lookahead at h
  split at h
  · cases h
    rfl
  · exact absurd ⟨reach, h⟩ not_takes_refuse

theorem takes_peekTwo_next {t : Token × Option Token} (h : Takes peekTwo ts t rest) :
    t.2 = ts.tail.head? := by
  obtain ⟨reach, h⟩ := h
  cases ts with
  | nil => cases h
  | cons u us =>
    cases h
    rfl

theorem exists_of_lookahead (h : Takes (lookahead p) ts a rest) : ∃ last, Takes p ts a last := by
  obtain ⟨reach, h⟩ := h
  unfold lookahead at h
  split at h
  · rename_i b last first hp
    cases h
    exact ⟨last, first, hp⟩
  · exact absurd ⟨reach, h⟩ not_takes_refuse

theorem takes_tokenWhere {is : Token → Bool} {t : Token} (h : Takes (tokenWhere is) ts t rest) :
    ts = t :: rest ∧ is t = true := by
  obtain ⟨reach, h⟩ := h
  cases ts with
  | nil => cases h
  | cons u us =>
    simp only [tokenWhere] at h
    split at h
    · rename_i hu
      cases h
      exact ⟨rfl, hu⟩
    · cases h

theorem takes_sign {s : String} {t : Token} (h : Takes (sign s) ts t rest) :
    ts = t :: rest ∧ t.kind = .sign s := by
  obtain ⟨hts, ht⟩ := takes_tokenWhere h
  exact ⟨hts, of_decide_eq_true ht⟩

theorem takes_keyword {s : String} {t : Token} (h : Takes (keyword s) ts t rest) :
    ts = t :: rest ∧ t.kind = .word s := by
  obtain ⟨hts, ht⟩ := takes_tokenWhere h
  exact ⟨hts, of_decide_eq_true ht⟩

theorem takes_identifier {n : Name} (h : Takes identifier ts n rest) :
    ∃ t s, ts = t :: rest ∧ t.kind = .word s ∧ n = Text.ofString s := by
  obtain ⟨reach, h⟩ := h
  cases ts with
  | nil => cases h
  | cons t us =>
    simp only [identifier] at h
    split at h
    · rename_i s hs
      cases h
      exact ⟨t, s, rfl, hs, rfl⟩
    · cases h

theorem takes_withSpan {result : α × List Glyph} (h : Takes (withSpan p) ts result rest) :
    Takes p ts result.1 rest ∧ result.2 = Token.span (ts.take (ts.length - rest.length)) := by
  obtain ⟨reach, h⟩ := h
  unfold withSpan at h
  split at h
  · cases h
  · rename_i a mid first hp
    cases h
    exact ⟨⟨_, hp⟩, rfl⟩

theorem takes_enclosed {opening closing : String}
    (h : Takes (enclosed opening p closing) ts a rest) :
    ∃ t mid u, ts = t :: mid ∧ Takes p mid a (u :: rest) ∧ u.kind = .sign closing := by
  obtain ⟨t, mid, hopening, h⟩ := takes_bind.mp h
  obtain ⟨a', late, hp, h⟩ := takes_bind.mp h
  obtain ⟨u, last, hclosing, hpure⟩ := takes_bind.mp h
  obtain ⟨rfl, rfl⟩ := takes_pure.mp hpure
  obtain ⟨rfl, -⟩ := takes_sign hopening
  obtain ⟨rfl, hu⟩ := takes_sign hclosing
  exact ⟨t, mid, u, rfl, hp, hu⟩

theorem takes_commaSeparated {all : List α} (h : Takes (commaSeparated p) ts all rest) :
    Takes (separated p (sign ",")) ts all rest ∨ all = [] ∧ rest = ts := by
  obtain ⟨items, mid, hitems, hpure⟩ := takes_bind.mp h
  obtain ⟨rfl, rfl⟩ := takes_pure.mp hpure
  rcases takes_optional hitems with ⟨all, rfl, hall⟩ | ⟨rfl, rfl⟩
  · exact .inl hall
  · exact .inr ⟨rfl, rfl⟩

end LookupGen.Java.Parser
