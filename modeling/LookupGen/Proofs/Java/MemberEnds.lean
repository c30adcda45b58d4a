import LookupGen.Proofs.Java.Borders

/-!
# Where members end

A member of a type that is no type itself ends with a semicolon, with its body, or with what a field
is set to. What stands before that end starts with modifiers, and what follows them starts neither a
modifier nor a type.

This module does NOT say what the member declares.
-/

namespace LookupGen.Java

open Java.Parser

section Balance

variable {f : Surface}

theorem balanced_word {t : Token} {s : String} (ht : t.kind = .word s) : Balanced f [t] :=
  .token (by rw [ht]; rfl)

theorem Dotted.balanced {ts : List Token} (h : Dotted ts) : Balanced f ts := by
  induction h with
  | word ht => exact balanced_word ht
  | more _ hdot hw ih =>
    refine ih.append (.single ?_ (balanced_word hw))
    rw [hdot]
    cases f <;> decide

theorem MayBracket.balanced {opening closing : String} {ts : List Token}
    (hpair : (opening, closing) ∈ f.pairs) (h : MayBracket opening closing ts) : Balanced f ts := by
  rcases h with rfl | h
  · exact .nil f
  · exact .of_bracketed hpair h

theorem AnnotationTokens.balanced {ts : List Token} (h : AnnotationTokens ts) : Balanced f ts := by
  cases h with
  | mk ht hname harguments =>
    refine .single ?_ (hname.balanced.append (harguments.balanced f.round_mem))
    rw [ht]
    cases f <;> decide

theorem ModifierTokens.balanced {n : Nat} {ts : List Token} (h : ModifierTokens n ts) :
    Balanced .front ts := by
  induction h with
  | nil => exact .nil _
  | word ht _ _ ih => exact (balanced_word ht).append ih
  | nonSealed ht hu hv _ ih =>
    exact (balanced_word ht).append (.single (by rw [hu]; rfl) ((balanced_word hv).append ih))
  | marked h _ ih => exact h.balanced.append ih

theorem Balanced.front {ts : List Token} (h : Balanced .header ts) : Balanced .front ts :=
  h.mono (by decide) (by decide)

theorem Balanced.expression {ts : List Token} (h : Balanced .front ts) : Balanced .expression ts :=
  h.mono (by decide) (by decide)

end Balance

/-- The end of a member: a semicolon, its body, or what a field is set to. -/
inductive Ending : List Token → Prop where
  | semicolon {t : Token} (ht : t.kind = .sign ";") : Ending [t]
  | body {ts : List Token} (h : Bracketed "\x7b" "\x7d" ts) : Ending ts
  | value {t u : Token} {ts : List Token} (ht : t.kind = .sign "=") (h : Balanced .expression ts)
      (hu : u.kind = .sign ";") : Ending (t :: (ts ++ [u]))

theorem Ending.stops {e : List Token} (h : Ending e) :
    ∃ t rest, e = t :: rest ∧ Surface.front.Stops t := by
  cases h with
  | semicolon ht => exact ⟨_, _, rfl, Surface.stops_of_sign ht (by decide)⟩
  | value ht => exact ⟨_, _, rfl, Surface.stops_of_sign ht (by decide)⟩
  | body h =>
    obtain ⟨t, inner, u, rfl, ht, -, -⟩ := h
    exact ⟨_, _, rfl, Surface.stops_of_sign ht (by decide)⟩

theorem stops_semicolon {t : Token} (ht : t.kind = .sign ";") : Surface.expression.Stops t :=
  Surface.stops_of_sign ht (by decide)

theorem Ending.unique {e e' s s' : List Token} (h : Ending e) (h' : Ending e')
    (heq : e ++ s = e' ++ s') : e = e' ∧ s = s' := by
  have hsign {t t' : Token} {a b : String} {x x' : List Token} (hab : a ≠ b) (ht : t.kind = .sign a)
      (ht' : t'.kind = .sign b) (heq : t :: x = t' :: x') : False := by
    obtain ⟨rfl, -⟩ := List.cons.inj heq
    exact hab (TokenKind.sign.inj (ht.symm.trans ht'))
  cases h with
  | semicolon ht =>
    cases h' with
    | semicolon ht' =>
      obtain ⟨rfl, hs⟩ := List.cons.inj heq
      exact ⟨rfl, hs⟩
    | body h' =>
      obtain ⟨t', inner, u, rfl, ht', -, -⟩ := h'
      exact (hsign (by decide) ht ht' heq).elim
    | value ht' => exact (hsign (by decide) ht ht' heq).elim
  | body h =>
    cases h' with
    | body h' => exact h.unique (by decide) h' heq
    | semicolon ht' =>
      obtain ⟨t, inner, u, rfl, ht, -, -⟩ := h
      exact (hsign (by decide) ht ht' heq).elim
    | value ht' =>
      obtain ⟨t, inner, u, rfl, ht, -, -⟩ := h
      exact (hsign (by decide) ht ht' heq).elim
  | @value t u ts ht h hu =>
    cases h' with
    | semicolon ht' => exact (hsign (by decide) ht ht' heq).elim
    | body h' =>
      obtain ⟨t', inner, u, rfl, ht', -, -⟩ := h'
      exact (hsign (by decide) ht ht' heq).elim
    | @value t' u' ts' ht' h' hu' =>
      simp only [List.cons_append, List.append_assoc, List.nil_append] at heq
      obtain ⟨rfl, hinside⟩ := List.cons.inj heq
      obtain ⟨rfl, hend⟩ := h.unique h' (stops_semicolon hu) (stops_semicolon hu') hinside
      obtain ⟨rfl, hs⟩ := List.cons.inj hend
      exact ⟨rfl, hs⟩

/-- A whole member that is no type, by where it ends. In an annotation type it ends with its first
semicolon. -/
inductive Whole (kind : BodyKind) : List Token → Prop where
  | ends {before last : List Token} (hkind : kind ≠ .annotationType) (h : Balanced .front before)
      (hlast : Ending last) : Whole kind (before ++ last)
  | semicolon {before : List Token} {u : Token} (hkind : kind = .annotationType)
      (h : Balanced .expression before) (hu : u.kind = .sign ";") : Whole kind (before ++ [u])

theorem Whole.unique {kind : BodyKind} {us us' s s' : List Token} (h : Whole kind us)
    (h' : Whole kind us') (heq : us ++ s = us' ++ s') : us = us' ∧ s = s' := by
  cases h with
  | @ends before last hkind hbefore hlast =>
    cases h' with
    | semicolon hkind' => exact absurd hkind' hkind
    | @ends before' last' _ hbefore' hlast' =>
      rw [List.append_assoc, List.append_assoc] at heq
      obtain ⟨t, rest, rfl, ht⟩ := hlast.stops
      obtain ⟨t', rest', rfl, ht'⟩ := hlast'.stops
      obtain ⟨rfl, hend⟩ := hbefore.unique hbefore' ht ht' heq
      obtain ⟨hsame, hs⟩ := hlast.unique hlast' hend
      rw [hsame]
      exact ⟨rfl, hs⟩
  | @semicolon before u hkind hbefore hu =>
    cases h' with
    | ends hkind' => exact absurd hkind hkind'
    | @semicolon before' u' _ hbefore' hu' =>
      rw [List.append_assoc, List.append_assoc] at heq
      obtain ⟨rfl, hend⟩ := hbefore.unique hbefore' (stops_semicolon hu) (stops_semicolon hu') heq
      obtain ⟨rfl, hs⟩ := List.cons.inj hend
      exact ⟨rfl, hs⟩

/-- A piece of a body that is no type: modifiers, and what ends them, up to its own end. -/
structure OtherTokens (kind : BodyKind) (us : List Token) : Prop where
  whole : Whole kind us
  starts : ∃ n modifiers rest, us = modifiers ++ rest ∧ ModifierTokens n modifiers ∧ ∀ s,
    EndsModifiers (rest ++ s) ∧ ∀ t ∈ (rest ++ s).head?, startsType t (rest ++ s).tail.head? = false

theorem Balanced.tail {f : Surface} {t : Token} {ts : List Token} (h : Balanced f (t :: ts))
    (ht : f.admits t.kind = true) : Balanced f ts := by
  cases h with
  | single _ hrest => exact hrest
  | group hpair hopening =>
    rw [hopening, Surface.not_admits_opening _ _ hpair] at ht
    cases ht

theorem Balanced.head_header {t : Token} {ts : List Token} (h : Balanced .header (t :: ts)) :
    t.kind ≠ .sign "-" ∧ t.kind ≠ .sign "@interface" := by
  cases h with
  | single ht =>
    constructor <;>
    · intro heq
      rw [heq] at ht
      exact absurd ht (by decide)
  | @group _ opening closing _ _ _ _ hpair hopening =>
    have hno : ∀ pair ∈ Surface.header.pairs, pair.1 ≠ "-" ∧ pair.1 ≠ "@interface" := by decide
    rw [hopening]
    exact ⟨fun heq => (hno _ hpair).1 (TokenKind.sign.inj heq),
      fun heq => (hno _ hpair).2 (TokenKind.sign.inj heq)⟩

/-- What comes after a header makes no modifier and no type of its last token. -/
def EndsHeader (last : List Token) : Prop :=
  ∃ t rest, last = t :: rest ∧ t.kind ≠ .sign "-" ∧ t.kind ≠ .sign "@interface"

theorem EndsHeader.of_kind {t : Token} {kind : TokenKind} (ht : t.kind = kind)
    (hkind : kind ≠ .sign "-" ∧ kind ≠ .sign "@interface") (rest : List Token) :
    EndsHeader (t :: rest) := ⟨t, rest, rfl, ht ▸ hkind⟩

theorem endsModifiers_of_header {first last : List Token} (hfirst : Balanced .header first)
    (hne : first ≠ []) (hstarts : StartsMember (first ++ last)) (hlast : EndsHeader last)
    (s : List Token) : EndsModifiers (first ++ last ++ s) ∧
      ∀ t ∈ (first ++ last ++ s).head?, startsType t (first ++ last ++ s).tail.head? = false := by
  obtain ⟨t, first, rfl⟩ := List.exists_cons_of_ne_nil hne
  obtain ⟨e, rest, rfl, hminus, hat⟩ := hlast
  obtain ⟨t', more, heq, hword, hmodifier, htype⟩ := hstarts
  obtain ⟨rfl, rfl⟩ := List.cons.inj heq
  have hadmits : Surface.header.admits t.kind = true := by
    rcases Bool.or_eq_true_iff.mp hword with h | h
    · exact admits_of_isAnyWord t h
    · exact admits_of_isSign t h
  have hkind : t.kind ≠ .sign "." ∧ t.kind ≠ .sign "(" ∧ t.kind ≠ .sign "@" := by
    rcases Bool.or_eq_true_iff.mp hword with h | h
    · obtain ⟨s, hs⟩ := isAnyWord_iff.mp h
      rw [hs]
      exact ⟨nofun, nofun, nofun⟩
    · rw [of_decide_eq_true h]
      decide
  obtain ⟨u, after, hu, huminus, huat⟩ : ∃ u after, first ++ e :: rest = u :: after ∧
      u.kind ≠ .sign "-" ∧ u.kind ≠ .sign "@interface" := by
    cases first with
    | nil => exact ⟨e, rest, rfl, hminus, hat⟩
    | cons u first => exact ⟨u, _, rfl, (hfirst.tail hadmits).head_header⟩
  change isModifier t (first ++ e :: rest).head? = false at hmodifier
  change startsType t (first ++ e :: rest).head? = false at htype
  rw [hu] at hmodifier htype
  rw [List.cons_append, List.cons_append, hu]
  refine ⟨⟨?_, ?_, ?_, ?_, ?_⟩, ?_⟩ <;> intro v hv <;> obtain rfl := Option.some.inj hv
  · exact ⟨hkind.1, hkind.2.1⟩
  · exact hkind.2.2
  · exact hmodifier
  · intro _ w hw
    obtain rfl := Option.some.inj hw
    exact huat
  · intro _ w hw
    obtain rfl := Option.some.inj hw
    exact huminus
  · exact htype

theorem otherTokens_of_header {kind : BodyKind} {n : Nat} {modifiers first last : List Token}
    (hmodifiers : ModifierTokens n modifiers) (hfirst : Balanced .header first) (hne : first ≠ [])
    (hstarts : StartsMember (first ++ last)) (hends : EndsHeader last)
    (hwhole : ∀ before, Balanced .front before → Whole kind (before ++ last)) :
    OtherTokens kind (modifiers ++ (first ++ last)) where
  whole := by
    rw [← List.append_assoc]
    exact hwhole _ (hmodifiers.balanced.append hfirst.front)
  starts := ⟨n, modifiers, first ++ last, rfl, hmodifiers,
    endsModifiers_of_header hfirst hne hstarts hends⟩

section Methods

variable {kind : BodyKind} {last : List Token}

theorem EndTokens.endsHeader (h : EndTokens kind last) : EndsHeader last := by
  cases h with
  | body _ h =>
    obtain ⟨t, inner, u, rfl, ht, -, -⟩ := h
    exact .of_kind ht (by decide) _
  | semicolon ht => exact .of_kind ht (by decide) []
  | default _ ht => exact .of_kind ht ⟨nofun, nofun⟩ _

theorem EndTokens.whole (h : EndTokens kind last) {before : List Token}
    (hbefore : Balanced .front before) : Whole kind (before ++ last) := by
  cases h with
  | body hkind h => exact .ends hkind hbefore (.body h)
  | semicolon ht =>
    by_cases hkind : kind = .annotationType
    · exact .semicolon hkind hbefore.expression ht
    · exact .ends hkind hbefore (.semicolon ht)
  | @default t u value hkind ht hvalue hu =>
    have hdefault : Balanced .expression (before ++ t :: value) :=
      hbefore.expression.append ((balanced_word ht).append hvalue)
    simpa using Whole.semicolon hkind hdefault hu

end Methods

def MaySet (value : List Token) : Prop :=
  value = [] ∨ ∃ t rest, value = t :: rest ∧ t.kind = .sign "=" ∧ Balanced .expression rest

namespace MaySet

variable {value : List Token}

theorem balanced (h : MaySet value) : Balanced .expression value := by
  rcases h with rfl | ⟨t, rest, rfl, ht, hrest⟩
  · exact .nil _
  · exact .single (by rw [ht]; rfl) hrest

theorem endsHeader (h : MaySet value) {u : Token} (hu : u.kind = .sign ";") :
    EndsHeader (value ++ [u]) := by
  rcases h with rfl | ⟨t, rest, rfl, ht, -⟩
  · exact .of_kind hu (by decide) []
  · exact .of_kind ht (by decide) _

theorem whole (h : MaySet value) {kind : BodyKind} {u : Token} (hu : u.kind = .sign ";")
    {before : List Token} (hbefore : Balanced .front before) :
    Whole kind (before ++ (value ++ [u])) := by
  by_cases hkind : kind = .annotationType
  · rw [← List.append_assoc]
    exact .semicolon hkind (hbefore.expression.append h.balanced) hu
  · refine .ends hkind hbefore ?_
    rcases h with rfl | ⟨t, rest, rfl, ht, hrest⟩
    · exact .semicolon hu
    · exact .value ht hrest hu

end MaySet

theorem VariableTokens.cut {vs : List Token} {d : Declarator} (h : VariableTokens vs d) :
    ∃ first value, vs = first ++ value ∧ first ≠ [] ∧ Balanced .header first ∧ MaySet value := by
  cases h with
  | @mk _ t brackets value ht _ hbrackets hvalue =>
    obtain ⟨s, hs, -⟩ := ht
    exact ⟨t :: brackets, value, rfl, List.cons_ne_nil _ _,
      (balanced_word hs).append hbrackets, hvalue⟩

theorem Listed.cut {vs : List Token} {ds : List Declarator} (h : Listed VariableTokens vs ds) :
    ∃ first value, vs = first ++ value ∧ first ≠ [] ∧ Balanced .header first ∧ MaySet value := by
  induction h with
  | last h => exact h.cut
  | @more ts rest t _ _ h ht _ ih =>
    obtain ⟨first, value, rfl, hne, hfirst, hvalue⟩ := h.cut
    obtain ⟨first', value', rfl, hne', hfirst', hvalue'⟩ := ih
    rcases hvalue with rfl | ⟨u, us, rfl, hu, hus⟩
    · refine ⟨first ++ t :: first', value', by simp, by simp, ?_, hvalue'⟩
      exact hfirst.append (.single (by rw [ht]; rfl) hfirst')
    · refine ⟨first, u :: (us ++ t :: (first' ++ value')), by simp, hne, hfirst,
        .inr ⟨u, _, rfl, hu, hus.append (.single (by rw [ht]; rfl) ?_)⟩⟩
      exact hfirst'.front.expression.append hvalue'.balanced

theorem MemberTokens.other {kind : BodyKind} {us : List Token} {m : Member}
    (h : MemberTokens kind us m) : OtherTokens kind us := by
  cases h with
  | @method sort m name line t modifiers front rest last _ hmodifiers hstarts hfront ht
      hrest hlast _ =>
    obtain ⟨w, hw, -⟩ := ht
    have hheader : Balanced .header (front ++ t :: rest) :=
      hfront.append ((balanced_word hw).append hrest)
    have hall : OtherTokens kind (modifiers ++ (front ++ t :: rest ++ last)) :=
      otherTokens_of_header hmodifiers hheader (by simp) (by simpa using hstarts) hlast.endsHeader
        fun before hbefore => hlast.whole hbefore
    simpa using hall
  | @fields m type ds t modifiers front declared hmodifiers hstarts hfront hvariables ht =>
    obtain ⟨first, value, rfl, hne, hfirst, hvalue⟩ := hvariables.cut
    have hall : OtherTokens kind (modifiers ++ (front ++ first ++ (value ++ [t]))) :=
      otherTokens_of_header hmodifiers (hfront.append hfirst) (by simp [hne])
        (by simpa using hstarts) (hvalue.endsHeader ht) fun before hbefore =>
          hvalue.whole ht hbefore
    simpa using hall

end LookupGen.Java
