import LookupGen.Proofs.Java.Outline

/-!
# Where pieces end

Tokens whose brackets match end at the first token that may not stand there, a name ends where no
dot follows, and modifiers end before the first word that is none. So of two ways to read the same
tokens from the front, each takes the same ones.

This module does NOT say what follows the modifiers.
-/

namespace LookupGen.Java

open Java.Parser

namespace Surface

/-- A token ends what may stand in a place: it may not stand there itself, and it opens no bracket.
-/
def Stops (f : Surface) (t : Token) : Prop :=
  f.admits t.kind = false ∧ ∀ pair ∈ f.pairs, t.kind ≠ .sign pair.1

theorem not_admits_opening (f : Surface) : ∀ pair ∈ f.pairs, f.admits (.sign pair.1) = false := by
  cases f <;> decide

theorem stops_of_sign {f : Surface} {t : Token} {s : String} (ht : t.kind = .sign s)
    (h : f.admits (.sign s) = false ∧ ∀ pair ∈ f.pairs, s ≠ pair.1) : f.Stops t := by
  refine ⟨ht ▸ h.1, fun pair hpair heq => h.2 pair hpair ?_⟩
  exact TokenKind.sign.inj (ht.symm.trans heq)

theorem stops_closing {f : Surface} {pair : String × String} (hpair : pair ∈ f.pairs) {u : Token}
    (hu : u.kind = .sign pair.2) : body.Stops u := by
  have hclosing : ∀ pair ∈ f.pairs, body.admits (.sign pair.2) = false ∧
      ∀ other ∈ body.pairs, pair.2 ≠ other.1 := by
    cases f <;> decide
  exact stops_of_sign hu (hclosing pair hpair)

end Surface

theorem Balanced.unique {f : Surface} {a a' x x' : List Token} {t t' : Token} (ha : Balanced f a)
    (ha' : Balanced f a') (ht : f.Stops t) (ht' : f.Stops t') (heq : a ++ t :: x = a' ++ t' :: x') :
    a = a' ∧ t :: x = t' :: x' := by
  induction ha generalizing a' x x' t t' with
  | nil f =>
    cases ha' with
    | nil => exact ⟨rfl, heq⟩
    | single h =>
      obtain ⟨rfl, -⟩ := List.cons.inj heq
      rw [ht.1] at h
      cases h
    | group hpair hopening =>
      obtain ⟨rfl, -⟩ := List.cons.inj heq
      exact absurd hopening (ht.2 _ hpair)
  | single h hrest ih =>
    cases ha' with
    | nil =>
      obtain ⟨rfl, -⟩ := List.cons.inj heq
      rw [ht'.1] at h
      cases h
    | single h' hrest' =>
      obtain ⟨rfl, hmore⟩ := List.cons.inj heq
      obtain ⟨rfl, hsame⟩ := ih hrest' ht ht' hmore
      exact ⟨rfl, hsame⟩
    | group hpair hopening =>
      obtain ⟨rfl, -⟩ := List.cons.inj heq
      rw [hopening, Surface.not_admits_opening _ _ hpair] at h
      cases h
  | @group f opening closing o u inner ts hpair hopening hinner hu _ ihInner ih =>
    cases ha' with
    | nil =>
      obtain ⟨rfl, -⟩ := List.cons.inj heq
      exact absurd hopening (ht'.2 _ hpair)
    | single h' =>
      obtain ⟨rfl, -⟩ := List.cons.inj heq
      rw [hopening, Surface.not_admits_opening _ _ hpair] at h'
      cases h'
    | @group _ opening' closing' o' u' inner' ts' hpair' hopening' hinner' hu' hrest' =>
      simp only [List.cons_append, List.append_assoc] at heq
      obtain ⟨rfl, hinside⟩ := List.cons.inj heq
      obtain ⟨rfl, hclosing⟩ := ihInner hinner' (Surface.stops_closing hpair hu)
        (Surface.stops_closing hpair' hu') hinside
      obtain ⟨rfl, hmore⟩ := List.cons.inj hclosing
      obtain ⟨rfl, hsame⟩ := ih hrest' ht ht' hmore
      exact ⟨rfl, hsame⟩

theorem Bracketed.unique {opening closing : String}
    (hpair : (opening, closing) ∈ Surface.body.pairs)
    {us us' s s' : List Token} (h : Bracketed opening closing us)
    (h' : Bracketed opening closing us') (heq : us ++ s = us' ++ s') : us = us' ∧ s = s' := by
  obtain ⟨t, inner, u, rfl, -, hinner, hu⟩ := h
  obtain ⟨t', inner', u', rfl, -, hinner', hu'⟩ := h'
  simp only [List.cons_append, List.append_assoc, List.nil_append] at heq
  obtain ⟨rfl, hinside⟩ := List.cons.inj heq
  obtain ⟨rfl, hclosing⟩ := hinner.unique hinner' (Surface.stops_closing hpair hu)
    (Surface.stops_closing hpair hu') hinside
  obtain ⟨rfl, hs⟩ := List.cons.inj hclosing
  exact ⟨rfl, hs⟩

theorem Dotted.alternates {ts : List Token} (h : Dotted ts) :
    ts.length % 2 = 1 ∧ ∀ i t, ts[i]? = some t → i % 2 = 1 → t.kind = .sign "." := by
  induction h with
  | word =>
    refine ⟨rfl, fun i t ht hi => ?_⟩
    obtain ⟨hlength, -⟩ := List.getElem?_eq_some_iff.mp ht
    rw [List.length_singleton] at hlength
    omega
  | @more ts dot w s _ hdot _ ih =>
    obtain ⟨hodd, hdots⟩ := ih
    refine ⟨by rw [List.length_append]; simp only [List.length_cons, List.length_nil]; omega, ?_⟩
    intro i t ht hi
    by_cases hlt : i < ts.length
    · rw [List.getElem?_append_left hlt] at ht
      exact hdots i t ht hi
    · rw [List.getElem?_append_right (by omega)] at ht
      obtain ⟨hlength, -⟩ := List.getElem?_eq_some_iff.mp ht
      simp only [List.length_cons, List.length_nil] at hlength
      obtain hzero : i - ts.length = 0 := by omega
      rw [hzero] at ht
      obtain rfl := Option.some.inj ht
      exact hdot

theorem AnnotationTokens.not_word {us ts s : List Token} {t : Token} {w : String}
    (h : AnnotationTokens us) (ht : t.kind = .word w) : us ++ s ≠ t :: ts := by
  cases h with
  | mk ht' =>
    intro heq
    obtain ⟨rfl, -⟩ := List.cons.inj heq
    cases ht.symm.trans ht'

def Follows (s : List Token) : Prop := ∀ t ∈ s.head?, t.kind ≠ .sign "." ∧ t.kind ≠ .sign "("

theorem Dotted.eq_of_prefix {a c s : List Token} (ha : Dotted a) (hc : Dotted (a ++ c))
    (hs : ∀ t ∈ (c ++ s).head?, t.kind ≠ .sign ".") : c = [] := by
  cases c with
  | nil => rfl
  | cons t c =>
    have hget : (a ++ t :: c)[a.length]? = some t := by
      rw [List.getElem?_append_right (Nat.le_refl _), Nat.sub_self]
      rfl
    exact absurd (hc.alternates.2 _ t hget ha.alternates.1) (hs t rfl)

theorem Dotted.unique {a a' s s' : List Token} (ha : Dotted a) (ha' : Dotted a')
    (hs : ∀ t ∈ s.head?, t.kind ≠ .sign ".") (hs' : ∀ t ∈ s'.head?, t.kind ≠ .sign ".")
    (heq : a ++ s = a' ++ s') : a = a' ∧ s = s' := by
  rcases List.append_eq_append_iff.mp heq with ⟨c, rfl, rfl⟩ | ⟨c, rfl, rfl⟩
  · obtain rfl := ha.eq_of_prefix ha' hs
    exact ⟨(List.append_nil a).symm, rfl⟩
  · obtain rfl := ha'.eq_of_prefix ha hs'
    exact ⟨List.append_nil a', rfl⟩

theorem AnnotationTokens.unique {us us' s s' : List Token} (h : AnnotationTokens us)
    (h' : AnnotationTokens us') (hs : Follows s) (hs' : Follows s') (heq : us ++ s = us' ++ s') :
    us = us' ∧ s = s' := by
  have hdot {arguments s : List Token} (harguments : MayBracket "(" ")" arguments)
      (hs : Follows s) : ∀ t ∈ (arguments ++ s).head?, t.kind ≠ .sign "." := by
    rcases harguments with rfl | ⟨o, inner, u, rfl, ho, -, -⟩
    · exact fun t ht => (hs t ht).1
    · intro t ht
      obtain rfl := Option.some.inj ht
      rw [ho]
      decide
  cases h with
  | @mk t name arguments ht hname harguments =>
    cases h' with
    | @mk t' name' arguments' ht' hname' harguments' =>
      simp only [List.cons_append, List.append_assoc] at heq
      obtain ⟨rfl, hafter⟩ := List.cons.inj heq
      obtain ⟨rfl, hmore⟩ := hname.unique hname' (hdot harguments hs) (hdot harguments' hs') hafter
      rcases harguments with rfl | harguments
      · rcases harguments' with rfl | ⟨o, inner, u, rfl, ho, -, -⟩
        · exact ⟨rfl, hmore⟩
        · obtain rfl : s = _ := hmore
          exact absurd ho (hs o rfl).2
      · rcases harguments' with rfl | harguments'
        · obtain ⟨o, inner, u, rfl, ho, -, -⟩ := harguments
          obtain rfl : _ = s' := hmore
          exact absurd ho (hs' o rfl).2
        · obtain ⟨rfl, hsame⟩ := harguments.unique (by decide) harguments' hmore
          exact ⟨rfl, hsame⟩

theorem ModifierTokens.head {n : Nat} {ts : List Token} (h : ModifierTokens n ts) :
    ∀ t ∈ ts.head?, isAnyWord t = true ∨ isSign "@" t = true := by
  intro t hmem
  cases h with
  | nil => cases hmem
  | word ht | nonSealed ht =>
    obtain rfl := Option.some.inj hmem
    exact .inl (isAnyWord_iff.mpr ⟨_, ht⟩)
  | marked h =>
    cases h with
    | mk ht =>
      obtain rfl := Option.some.inj hmem
      exact .inr (decide_eq_true ht)

structure EndsModifiers (s : List Token) : Prop where
  follows : Follows s
  not_at : ∀ t ∈ s.head?, t.kind ≠ .sign "@"
  not_modifier : ∀ t ∈ s.head?, isModifier t s.tail.head? = false
  /-- In front of an annotation type the word is a modifier too. -/
  not_sealed : ∀ t ∈ s.head?, t.kind = .word "sealed" →
    ∀ u ∈ s.tail.head?, u.kind ≠ .sign "@interface"
  not_nonSealed : ∀ t ∈ s.head?, t.kind = .word "non" → ∀ u ∈ s.tail.head?, u.kind ≠ .sign "-"

theorem AnnotationTokens.not_ends {us s : List Token} (h : AnnotationTokens us) :
    ¬ EndsModifiers (us ++ s) := by
  cases h with
  | mk ht => exact fun hs => hs.not_at _ rfl ht

/-- Tokens start with a word that is no modifier, or with the sign for an annotation type. -/
def StartsPlain (x : List Token) : Prop :=
  ∃ t rest, x = t :: rest ∧ (t.kind = .sign "@interface" ∨
    ∃ s, t.kind = .word s ∧ s ∉ modifierWords ∧ s ≠ "sealed" ∧ s ≠ "non")

theorem StartsPlain.word {t : Token} {rest : List Token} (hx : StartsPlain (t :: rest)) {s : String}
    (hs : t.kind = .word s) : s ∉ modifierWords ∧ s ≠ "sealed" ∧ s ≠ "non" := by
  obtain ⟨t', rest', heq, ht⟩ := hx
  obtain ⟨rfl, rfl⟩ := List.cons.inj heq
  rcases ht with ht | ⟨s', hs', hplain⟩
  · cases ht.symm.trans hs
  · obtain rfl := TokenKind.word.inj (hs'.symm.trans hs)
    exact hplain

theorem StartsPlain.endsModifiers {x : List Token} (hx : StartsPlain x) : EndsModifiers x := by
  obtain ⟨t, rest, rfl, ht⟩ := id hx
  have hsign : t.kind ≠ .sign "." ∧ t.kind ≠ .sign "(" ∧ t.kind ≠ .sign "@" := by
    rcases ht with ht | ⟨s, hs, -⟩
    · rw [ht]
      decide
    · rw [hs]
      exact ⟨nofun, nofun, nofun⟩
  refine ⟨?_, ?_, ?_, ?_, ?_⟩ <;> intro v hv <;> obtain rfl := Option.some.inj hv
  · exact ⟨hsign.1, hsign.2.1⟩
  · exact hsign.2.2
  · unfold isModifier
    split
    · rename_i w hw
      obtain ⟨hnot, hsealed, -⟩ := hx.word hw
      simp [hnot, hsealed]
    · rfl
  · exact fun hsealed => absurd rfl (hx.word hsealed).2.1
  · exact fun hnon => absurd rfl (hx.word hnon).2.2

theorem ModifierTokens.follows {n : Nat} {ts s : List Token} (h : ModifierTokens n ts)
    (hs : Follows s) : Follows (ts ++ s) := by
  cases ts with
  | nil => exact hs
  | cons t ts =>
    intro u hu
    obtain rfl := Option.some.inj hu
    rcases h.head t rfl with ht | ht
    · obtain ⟨s, hs⟩ := isAnyWord_iff.mp ht
      rw [hs]
      exact ⟨nofun, nofun⟩
    · rw [of_decide_eq_true ht]
      decide

theorem ModifierTokens.next {n : Nat} {ts x : List Token} (h : ModifierTokens n ts)
    (hx : StartsPlain x) : ∃ u, (ts ++ x).head? = some u ∧
      ((isAnyWord u || isSign "@" u) = true ∨ u.kind = .sign "@interface") := by
  cases ts with
  | nil =>
    obtain ⟨t, rest, rfl, ht⟩ := hx
    refine ⟨t, rfl, ?_⟩
    rcases ht with ht | ⟨s, hs, -⟩
    · exact .inr ht
    · exact .inl (by rw [isAnyWord_iff.mpr ⟨s, hs⟩, Bool.true_or])
  | cons t ts =>
    refine ⟨t, rfl, .inl ?_⟩
    rcases h.head t rfl with ht | ht
    · rw [ht, Bool.true_or]
    · rw [ht, Bool.or_true]

theorem EndsModifiers.not_word {n : Nat} {t : Token} {w : String} {ts x : List Token}
    (hs : EndsModifiers (t :: (ts ++ x))) (ht : t.kind = .word w)
    (hrest : ModifierTokens n ts) (hx : StartsPlain x) : ¬ (w ∈ modifierWords ∨ w = "sealed") := by
  have hmodifier : isModifier t (ts ++ x).head? = false := hs.not_modifier t rfl
  obtain ⟨u, hu, hnext⟩ := hrest.next hx
  unfold isModifier at hmodifier
  rw [ht, hu] at hmodifier
  obtain ⟨hcontains, hsealed⟩ := Bool.or_eq_false_iff.mp hmodifier
  rintro (hw | rfl)
  · rw [List.contains_iff_mem.mpr hw] at hcontains
    cases hcontains
  · rcases hnext with hnext | hnext
    · rw [Option.any_some, hnext] at hsealed
      cases hsealed
    · exact hs.not_sealed t rfl ht u hu hnext

theorem ModifierTokens.unique {n n' : Nat} {ms ms' x s : List Token} (h : ModifierTokens n ms)
    (h' : ModifierTokens n' ms') (hx : StartsPlain x) (hs : EndsModifiers s)
    (heq : ms ++ x = ms' ++ s) : n = n' ∧ ms = ms' ∧ x = s := by
  -- By induction on the modifiers before something else: nothing less can be read as all of them.
  induction h generalizing n' ms' with
  | nil =>
    obtain rfl : x = _ := heq
    cases h' with
    | nil => exact ⟨rfl, rfl, rfl⟩
    | word ht hw =>
      obtain ⟨hnot, hsealed, -⟩ := hx.word ht
      exact absurd hw (not_or.mpr ⟨hnot, hsealed⟩)
    | nonSealed ht => exact absurd rfl (hx.word ht).2.2
    | marked h =>
      rw [List.append_assoc] at hx
      exact absurd hx.endsModifiers h.not_ends
  | @word n t w ts ht hw hrest ih =>
    cases h' with
    | nil =>
      obtain rfl : _ = s := heq
      exact absurd hw (hs.not_word ht hrest hx)
    | word ht' hw' hrest' =>
      obtain ⟨rfl, hmore⟩ := List.cons.inj heq
      obtain ⟨rfl, rfl, rfl⟩ := ih hrest' hmore
      exact ⟨rfl, rfl, rfl⟩
    | nonSealed ht' =>
      obtain ⟨rfl, -⟩ := List.cons.inj heq
      obtain rfl := TokenKind.word.inj (ht.symm.trans ht')
      exact absurd hw (by decide)
    | marked h =>
      rw [List.append_assoc] at heq
      exact absurd heq.symm (h.not_word ht)
  | @nonSealed n t u v ts ht hu hv hrest ih =>
    cases h' with
    | nil =>
      obtain rfl : _ = s := heq
      exact absurd hu (hs.not_nonSealed t rfl ht u rfl)
    | word ht' hw' =>
      obtain ⟨rfl, -⟩ := List.cons.inj heq
      obtain rfl := TokenKind.word.inj (ht.symm.trans ht')
      exact absurd hw' (by decide)
    | nonSealed ht' hu' hv' hrest' =>
      obtain ⟨rfl, hafter⟩ := List.cons.inj heq
      obtain ⟨rfl, hlast⟩ := List.cons.inj hafter
      obtain ⟨rfl, hmore⟩ := List.cons.inj hlast
      obtain ⟨rfl, rfl, rfl⟩ := ih hrest' hmore
      exact ⟨rfl, rfl, rfl⟩
    | marked h =>
      rw [List.append_assoc] at heq
      exact absurd heq.symm (h.not_word ht)
  | @marked n us ts hus hrest ih =>
    rw [List.append_assoc] at heq
    cases h' with
    | nil =>
      obtain rfl : _ = s := heq
      exact absurd hs hus.not_ends
    | word ht' | nonSealed ht' => exact absurd heq (hus.not_word ht')
    | marked hus' hrest' =>
      rw [List.append_assoc] at heq
      obtain ⟨rfl, hmore⟩ := hus.unique hus' (hrest.follows hx.endsModifiers.follows)
        (hrest'.follows hs.follows) heq
      obtain ⟨rfl, rfl, rfl⟩ := ih hrest' hmore
      exact ⟨rfl, rfl, rfl⟩

end LookupGen.Java
