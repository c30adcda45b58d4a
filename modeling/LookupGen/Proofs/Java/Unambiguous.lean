import LookupGen.Proofs.Java.MemberEnds

/-!
# One outline

The tokens of a type leave no choice: where each of its members ends, and which members are types,
can be read off the brackets and the words after the modifiers.

This module does NOT say how the fields of one declaration are told apart.
-/

namespace LookupGen.Java

open Java.Parser

theorem balanced_braces {t u : Token} {inner : List Token} (ht : t.kind = .sign "\x7b")
    (hinner : Balanced .body inner) (hu : u.kind = .sign "\x7d") :
    Balanced .body (t :: (inner ++ [u])) :=
  .of_bracketed (by decide) ⟨t, inner, u, rfl, ht, hinner, hu⟩

theorem HeaderTokens.balanced {kind : TypeKind} {m : Modifiers} {name : Name} {line : Nat}
    {ts : List Token} (h : HeaderTokens kind m name line ts) : Balanced .body ts := by
  cases h with
  | mk hmodifiers ht hu hrest =>
    obtain ⟨s, hs, -⟩ := hu
    refine hmodifiers.balanced.body.append (.single ?_ ((balanced_word hs).append hrest.body))
    rw [ht]
    cases kind <;> rfl

theorem Listed.balanced {f : Surface} {α : Type} {P : List Token → α → Prop} {ts : List Token}
    {as : List α} (h : Listed P ts as) (hP : ∀ us a, P us a → Balanced f us) : Balanced f ts := by
  induction h with
  | last h => exact hP _ _ h
  | more h ht _ ih =>
    refine (hP _ _ h).append (.single ?_ ih)
    rw [ht]
    cases f <;> decide

theorem ConstantTokens.balanced {ts : List Token} {m : Member} (h : ConstantTokens ts m) :
    Balanced .expression ts := by
  cases h with
  | mk hmodifiers ht harguments hbody =>
    obtain ⟨s, hs, -⟩ := ht
    exact hmodifiers.balanced.expression.append ((balanced_word hs).append
      ((harguments.balanced (by decide)).append (hbody.balanced (by decide))))

theorem balanced_constants {inner comma : List Token} {constants : List Member}
    (hconstants : inner = [] ∧ constants = [] ∨ Listed ConstantTokens inner constants)
    (hcomma : comma = [] ∨ ∃ v, comma = [v] ∧ v.kind = .sign ",") :
    Balanced .expression (inner ++ comma) := by
  refine .append ?_ ?_
  · rcases hconstants with ⟨rfl, -⟩ | h
    · exact .nil _
    · exact h.balanced fun _ _ h => h.balanced
  · rcases hcomma with rfl | ⟨v, rfl, hv⟩
    · exact .nil _
    · exact .token (by rw [hv]; rfl)

theorem Whole.balanced {kind : BodyKind} {us : List Token} (h : Whole kind us) :
    Balanced .body us := by
  have hsemicolon {u : Token} (hu : u.kind = .sign ";") : Balanced .body [u] :=
    .token (by rw [hu]; rfl)
  cases h with
  | ends _ hbefore hlast =>
    refine hbefore.body.append ?_
    cases hlast with
    | semicolon ht => exact hsemicolon ht
    | body h => exact .of_bracketed (by decide) h
    | value ht h hu => exact .single (by rw [ht]; rfl) (h.body.append (hsemicolon hu))
  | semicolon _ hbefore hu => exact hbefore.body.append (hsemicolon hu)

/-- By induction on the body and the types in it. -/
theorem BodyTokens.balanced {kind : BodyKind} {ts : List Token} {members : List Member}
    (h : BodyTokens kind ts members) : Balanced .body ts := by
  refine @BodyTokens.rec (fun ts _ _ => Balanced .body ts) (fun ts _ _ => Balanced .body ts)
    (fun _ ts _ _ => Balanced .body ts) ?_ ?_ ?_ ?_ ?_ ?_ ?_ ?_ ?_ _ _ _ h
  · intro kind m name line members header inner t u _ hheader ht _ hu hinner
    exact hheader.balanced.append (balanced_braces ht hinner hu)
  · intro m name line constants members header inner comma rest t u hheader ht
      hconstants hcomma _ hu
      hrest
    have hinner := (balanced_constants hconstants hcomma).body.append hrest
    simpa using hheader.balanced.append (balanced_braces ht hinner hu)
  · exact .nil _
  · exact fun ht _ ih => .single (by rw [ht]; rfl) ih
  · exact fun _ => .nil _
  · exact fun ht _ ih => .single (by rw [ht]; rfl) ih
  · intro front block ts members hfront hblock _ ih
    refine .append ?_ ((Balanced.of_bracketed (by decide) hblock).append ih)
    rcases hfront with rfl | ⟨t, rfl, ht⟩
    · exact .nil _
    · exact balanced_word ht
  · exact fun _ _ hus ih => hus.append ih
  · exact fun h _ ih => h.other.whole.balanced.append ih

inductive InnerTokens (kind : TypeKind) : List Token → List Member → Prop where
  | body {ts : List Token} {members : List Member} (hkind : kind ≠ .enumeration)
      (h : BodyTokens (bodyKind kind) ts members) : InnerTokens kind ts members
  | enumeration {first rest : List Token} {constants members : List Member}
      (hkind : kind = .enumeration) (hfirst : Balanced .expression first)
      (hconstants : ∀ m ∈ constants, ∃ us, ConstantTokens us m) (hrest : RestTokens rest members) :
      InnerTokens kind (first ++ rest) (constants ++ members)

theorem RestTokens.balanced {ts : List Token} {members : List Member} (h : RestTokens ts members) :
    Balanced .body ts := by
  cases h with
  | none => exact .nil _
  | some ht h => exact .single (by rw [ht]; rfl) h.balanced

theorem InnerTokens.balanced {kind : TypeKind} {ts : List Token} {members : List Member}
    (h : InnerTokens kind ts members) : Balanced .body ts := by
  cases h with
  | body _ h => exact h.balanced
  | enumeration _ hfirst _ hrest => exact hfirst.body.append hrest.balanced

theorem TypeTokens.parts {us : List Token} {kind : TypeKind} {m : Modifiers} {name : Name}
    {line : Nat} {members : List Member} (h : TypeTokens us (.mk kind m name line members)) :
    ∃ header t inner u, us = header ++ t :: (inner ++ [u]) ∧ HeaderTokens kind m name line header ∧
      t.kind = .sign "\x7b" ∧ InnerTokens kind inner members ∧ u.kind = .sign "\x7d" := by
  cases h with
  | body hkind hheader ht hinner hu => exact ⟨_, _, _, _, rfl, hheader, ht, .body hkind hinner, hu⟩
  | @enumeration _ _ _ constants members header inner comma rest t u hheader ht hconstants
      hcomma hrest
      hu =>
    refine ⟨header, t, inner ++ comma ++ rest, u, by simp, hheader, ht, ?_, hu⟩
    refine .enumeration rfl (balanced_constants hconstants hcomma) ?_ hrest
    intro m hm
    rcases hconstants with ⟨-, rfl⟩ | hlisted
    · cases hm
    · exact hlisted.exists_of_mem hm

theorem HeaderTokens.starts {kind : TypeKind} {m : Modifiers} {name : Name} {line : Nat}
    {header : List Token} (h : HeaderTokens kind m name line header) :
    ∃ n modifiers t u rest, header = modifiers ++ t :: u :: rest ∧ ModifierTokens n modifiers ∧
      t.kind = typeKeyword kind ∧ u.Names name ∧ Balanced .header rest ∧ StartsOn line header := by
  cases h with
  | mk hmodifiers ht hu hrest hline => exact ⟨_, _, _, _, _, rfl, hmodifiers, ht, hu, hrest, hline⟩

theorem startsPlain_of_keyword {kind : TypeKind} {t : Token} (ht : t.kind = typeKeyword kind)
    (s : List Token) : StartsPlain (t :: s) := by
  refine ⟨t, s, rfl, ?_⟩
  rw [ht]
  cases kind with
  | annotationType => exact .inl rfl
  | ordinary | interface | enumeration | record => exact .inr ⟨_, rfl, by decide⟩

theorem typeKeyword_inj {kind kind' : TypeKind} (h : typeKeyword kind = typeKeyword kind') :
    kind = kind' := by
  revert h
  cases kind <;> cases kind' <;> decide

theorem StartsOn.unique {line line' : Nat} {ts : List Token} (h : StartsOn line ts)
    (h' : StartsOn line' ts) : line = line' := by
  obtain ⟨t, rest, rfl, rfl⟩ := h
  obtain ⟨t', rest', heq, rfl⟩ := h'
  obtain ⟨rfl, -⟩ := List.cons.inj heq
  rfl

/-- The header of a type, up to the first brace, tells its kind, its name and its line. -/
theorem HeaderTokens.unique {kind kind' : TypeKind} {m m' : Modifiers} {name name' : Name}
    {line line' : Nat} {header header' x x' : List Token} {b b' : Token}
    (h : HeaderTokens kind m name line header) (h' : HeaderTokens kind' m' name' line' header')
    (hb : b.kind = .sign "\x7b") (hb' : b'.kind = .sign "\x7b")
    (heq : header ++ b :: x = header' ++ b' :: x') :
    kind = kind' ∧ name = name' ∧ line = line' ∧ header = header' ∧ x = x' := by
  obtain ⟨n, modifiers, t, u, rest, rfl, hmodifiers, ht, ⟨s, hs, rfl⟩, hrest, hline⟩ := h.starts
  obtain ⟨n', modifiers', t', u', rest', rfl, hmodifiers', ht', ⟨s', hs', rfl⟩, hrest', hline'⟩ :=
    h'.starts
  simp only [List.append_assoc, List.cons_append] at heq
  obtain ⟨-, rfl, hmore⟩ := hmodifiers.unique hmodifiers' (startsPlain_of_keyword ht _)
    (startsPlain_of_keyword ht' _).endsModifiers heq
  obtain ⟨rfl, hname⟩ := List.cons.inj hmore
  obtain ⟨rfl, hafter⟩ := List.cons.inj hname
  have hstops {b : Token} (hb : b.kind = .sign "\x7b") : Surface.header.Stops b :=
    Surface.stops_of_sign hb (by decide)
  obtain ⟨rfl, hbrace⟩ := hrest.unique hrest' (hstops hb) (hstops hb') hafter
  obtain rfl := TokenKind.word.inj (hs.symm.trans hs')
  exact ⟨typeKeyword_inj (ht.symm.trans ht'), rfl, hline.unique hline', rfl,
    (List.cons.inj hbrace).2⟩

theorem startsType_of_keyword {kind : TypeKind} {t u : Token} {w : String}
    (ht : t.kind = typeKeyword kind) (hu : u.kind = .word w) : startsType t (some u) = true := by
  unfold startsType isSign isWord isAnyWord
  rw [ht, Option.any_some, hu]
  cases kind <;> rfl

theorem OtherTokens.not_header {bodyKind : BodyKind} {kind : TypeKind} {m : Modifiers} {name : Name}
    {line : Nat} {us s header x : List Token} (h : OtherTokens bodyKind us)
    (hheader : HeaderTokens kind m name line header) (heq : header ++ x = us ++ s) : False := by
  obtain ⟨n, modifiers, rest, rfl, hmodifiers, hends⟩ := h.starts
  obtain ⟨n', modifiers', t, u, rest', rfl, hmodifiers', ht, ⟨w, hw, -⟩, -, -⟩ := hheader.starts
  obtain ⟨hend, htype⟩ := hends s
  simp only [List.append_assoc, List.cons_append] at heq
  obtain ⟨-, -, hmore⟩ := hmodifiers'.unique hmodifiers (startsPlain_of_keyword ht _) hend heq
  have hnot := htype t (by rw [← hmore]; rfl)
  rw [← hmore] at hnot
  change startsType t (some u) = false at hnot
  rw [startsType_of_keyword ht hw] at hnot
  cases hnot

/-- A piece of a body with what it declares: a type, or something that is none. -/
inductive PieceTokens (kind : BodyKind) : List Token → List Member → Prop where
  | type {us : List Token} {d : TypeDeclaration} (h : TypeTokens us d) :
      PieceTokens kind us [.type d]
  | other {us : List Token} {own : List Member} (h : OtherTokens kind us)
      (hown : ∀ d, .type d ∉ own) : PieceTokens kind us own

theorem PieceTokens.ne_nil {kind : BodyKind} {us : List Token} {own : List Member}
    (h : PieceTokens kind us own) : us ≠ [] := by
  cases h with
  | @type d h =>
    obtain ⟨kind, m, name, line, members⟩ := d
    obtain ⟨header, t, inner, u, rfl, -⟩ := h.parts
    simp
  | other h =>
    cases h.whole with
    | ends _ _ hlast =>
      obtain ⟨t, rest, rfl, -⟩ := hlast.stops
      simp
    | semicolon => simp

theorem endsModifiers_of_sign {t : Token} {a : String} (ht : t.kind = .sign a)
    (ha : a ∉ [".", "(", "@", "@interface"]) (s : List Token) :
    EndsModifiers (t :: s) ∧ ∀ u ∈ (t :: s).head?, startsType u (t :: s).tail.head? = false := by
  simp only [List.mem_cons, List.not_mem_nil, or_false, not_or] at ha
  obtain ⟨hdot, hround, hat, hinterface⟩ := ha
  refine ⟨⟨?_, ?_, ?_, ?_, ?_⟩, ?_⟩ <;> intro v hv <;> obtain rfl := Option.some.inj hv
  · rw [ht]
    exact ⟨fun h => hdot (TokenKind.sign.inj h), fun h => hround (TokenKind.sign.inj h)⟩
  · rw [ht]
    exact fun h => hat (TokenKind.sign.inj h)
  · unfold isModifier
    rw [ht]
  · exact fun hsealed => by cases ht.symm.trans hsealed
  · exact fun hnon => by cases ht.symm.trans hnon
  · unfold startsType isSign isWord
    rw [ht]
    simp [hinterface]

theorem otherTokens_semicolon {kind : BodyKind} {t : Token} (ht : t.kind = .sign ";") :
    OtherTokens kind [t] := by
  refine ⟨?_, 0, [], [t], rfl, .nil, fun s => endsModifiers_of_sign ht (by decide) s⟩
  by_cases hkind : kind = .annotationType
  · exact .semicolon hkind (.nil _) ht
  · exact .ends hkind (.nil _) (.semicolon ht)

theorem otherTokens_initializer {front block : List Token}
    (hfront : front = [] ∨ ∃ t, front = [t] ∧ t.kind = .word "static")
    (hblock : Bracketed "\x7b" "\x7d" block) : OtherTokens .general (front ++ block) := by
  have hmodifiers : ModifierTokens 0 front := by
    rcases hfront with rfl | ⟨t, rfl, ht⟩
    · exact .nil
    · exact .word ht (.inl (by decide)) .nil
  refine ⟨.ends nofun hmodifiers.balanced (.body hblock), 0, front, block, rfl, hmodifiers,
    fun s => ?_⟩
  obtain ⟨t, inner, u, rfl, ht, -, -⟩ := hblock
  exact endsModifiers_of_sign ht (by decide) _

theorem BodyTokens.split {kind : BodyKind} {ts : List Token} {members : List Member}
    (h : BodyTokens kind ts members) : ts = [] ∧ members = [] ∨
      ∃ us rest own more, ts = us ++ rest ∧ members = own ++ more ∧ PieceTokens kind us own ∧
        BodyTokens kind rest more := by
  cases h with
  | nil => exact .inl ⟨rfl, rfl⟩
  | @semicolon _ t rest _ ht hrest =>
    exact .inr ⟨[t], rest, [], _, rfl, rfl, .other (otherTokens_semicolon ht) nofun, hrest⟩
  | @initializer front block rest _ hfront hblock hrest =>
    exact .inr ⟨front ++ block, rest, [], _, (List.append_assoc _ _ _).symm, rfl,
      .other (otherTokens_initializer hfront hblock) nofun, hrest⟩
  | type h hrest => exact .inr ⟨_, _, [_], _, rfl, rfl, .type h, hrest⟩
  | @member _ _ _ m _ h hrest =>
    refine .inr ⟨_, _, [m], _, rfl, rfl, .other h.other ?_, hrest⟩
    intro d hd
    obtain rfl := List.mem_singleton.mp hd
    cases h

/-- Of two ways to read a type from the front, each takes the same tokens. -/
theorem TypeTokens.unique {us us' s s' : List Token} {kind kind' : TypeKind} {m m' : Modifiers}
    {name name' : Name} {line line' : Nat} {members members' : List Member}
    (h : TypeTokens us (.mk kind m name line members))
    (h' : TypeTokens us' (.mk kind' m' name' line' members')) (heq : us ++ s = us' ++ s') :
    us = us' ∧ s = s' ∧ kind = kind' ∧ name = name' ∧ line = line' ∧
      ∃ inner, inner.length < us.length ∧ InnerTokens kind inner members ∧
        InnerTokens kind inner members' := by
  obtain ⟨header, t, inner, u, rfl, hheader, ht, hinner, hu⟩ := h.parts
  obtain ⟨header', t', inner', u', rfl, hheader', ht', hinner', hu'⟩ := h'.parts
  simp only [List.append_assoc, List.cons_append, List.nil_append] at heq
  obtain ⟨rfl, rfl, rfl, rfl, hmore⟩ := hheader.unique hheader' ht ht' heq
  have hstops {u : Token} (hu : u.kind = .sign "\x7d") : Surface.body.Stops u :=
    Surface.stops_of_sign hu (by decide)
  obtain ⟨rfl, hend⟩ := hinner.balanced.unique hinner'.balanced (hstops hu) (hstops hu') hmore
  obtain ⟨rfl, hs⟩ := List.cons.inj hend
  obtain ⟨rfl, -⟩ : t = t' ∧ _ := List.cons.inj (List.append_cancel_left heq)
  refine ⟨rfl, hs, rfl, rfl, rfl, inner, ?_, hinner, hinner'⟩
  simp only [List.length_append, List.length_cons]
  omega

/-- Of two ways to read a piece from the front, each takes the same tokens, and both find a type or
neither does. -/
theorem PieceTokens.unique {kind : BodyKind} {us us' s s' : List Token} {own own' : List Member}
    (h : PieceTokens kind us own) (h' : PieceTokens kind us' own') (heq : us ++ s = us' ++ s') :
    us = us' ∧ s = s' ∧ ((∀ d, .type d ∉ own) ∧ (∀ d, .type d ∉ own') ∨
      ∃ d d', TypeTokens us d ∧ TypeTokens us d' ∧ own = [.type d] ∧ own' = [.type d']) := by
  have hheader {us : List Token} {d : TypeDeclaration} (h : TypeTokens us d) :
      ∃ kind m name line header rest, us = header ++ rest ∧
        HeaderTokens kind m name line header := by
    obtain ⟨kind, m, name, line, members⟩ := d
    obtain ⟨header, t, inner, u, rfl, hheader, -⟩ := h.parts
    exact ⟨kind, m, name, line, header, _, rfl, hheader⟩
  cases h with
  | @type d h =>
    cases h' with
    | @type d' h' =>
      cases d with
      | mk kind m name line members =>
        cases d' with
        | mk kind' m' name' line' members' =>
          obtain ⟨rfl, hs, -⟩ := h.unique h' heq
          exact ⟨rfl, hs, .inr ⟨_, _, h, h', rfl, rfl⟩⟩
    | other h' =>
      obtain ⟨kind, m, name, line, header, rest, rfl, hfirst⟩ := hheader h
      rw [List.append_assoc] at heq
      exact (h'.not_header hfirst heq).elim
  | other h hown =>
    cases h' with
    | type h' =>
      obtain ⟨kind, m, name, line, header, rest, rfl, hfirst⟩ := hheader h'
      rw [List.append_assoc] at heq
      exact (h.not_header hfirst heq.symm).elim
    | other h' hown' =>
      obtain ⟨rfl, hs⟩ := h.whole.unique h'.whole heq
      exact ⟨rfl, hs, .inl ⟨hown, hown'⟩⟩

def ItemKeyword (t : Token) : Item → Prop
  | .package _ => t.kind = .word "package"
  | .import _ _ => t.kind = .word "import"
  | .type _ => ∃ kind, t.kind = typeKeyword kind

theorem ItemTokens.starts {us : List Token} {item : Item} (h : ItemTokens us item) :
    ∃ n modifiers t rest, us = modifiers ++ t :: rest ∧ ModifierTokens n modifiers ∧
      StartsPlain (t :: rest) ∧ ItemKeyword t item := by
  cases h with
  | package hmodifiers ht =>
    exact ⟨_, _, _, _, rfl, hmodifiers, ⟨_, _, rfl, .inr ⟨_, ht, by decide⟩⟩, ht⟩
  | «import» ht => exact ⟨0, [], _, _, rfl, .nil, ⟨_, _, rfl, .inr ⟨_, ht, by decide⟩⟩, ht⟩
  | @type _ d h =>
    obtain ⟨kind, m, name, line, members⟩ := d
    obtain ⟨header, b, inner, e, rfl, hheader, -⟩ := h.parts
    obtain ⟨n, modifiers, t, u, rest, rfl, hmodifiers, ht, -⟩ := hheader.starts
    exact ⟨n, modifiers, t, u :: (rest ++ b :: (inner ++ [e])), by simp, hmodifiers,
      startsPlain_of_keyword ht _, kind, ht⟩

theorem ItemTokens.ne_nil {us : List Token} {item : Item} (h : ItemTokens us item) : us ≠ [] := by
  obtain ⟨n, modifiers, t, rest, rfl, -⟩ := h.starts
  simp

/-- Two items with the same tokens are a type both, or name the same package, or import something.
-/
inductive SameItem (us : List Token) : Item → Item → Prop where
  | package (name : Written) : SameItem us (.package name) (.package name)
  | «import» (form form' : ImportForm) (name name' : Written) :
      SameItem us (.import form name) (.import form' name')
  | type {d d' : TypeDeclaration} (h : TypeTokens us d) (h' : TypeTokens us d') :
      SameItem us (.type d) (.type d')

theorem ItemTokens.package_unique {us : List Token} {name name' : Written}
    (h : ItemTokens us (.package name)) (h' : ItemTokens us (.package name')) : name = name' := by
  have hplain {t : Token} (ht : t.kind = .word "package") (s : List Token) : StartsPlain (t :: s) :=
    ⟨t, s, rfl, .inr ⟨_, ht, by decide⟩⟩
  have hsemicolon {u : Token} (hu : u.kind = .sign ";") : ∀ v ∈ [u].head?, v.kind ≠ .sign "." := by
    intro v hv
    obtain rfl := Option.some.inj hv
    rw [hu]
    decide
  cases h with
  | @package modifiers ts n t u hmodifiers ht hname hu =>
    generalize heq : modifiers ++ t :: (ts ++ [u]) = us at h'
    cases h' with
    | @package modifiers' ts' n' t' u' hmodifiers' ht' hname' hu' =>
      obtain ⟨-, -, hmore⟩ :=
        hmodifiers.unique hmodifiers' (hplain ht _) (hplain ht' _).endsModifiers heq
      obtain ⟨rfl, hafter⟩ := List.cons.inj hmore
      obtain ⟨rfl, -⟩ := hname.unique hname' (hsemicolon hu) (hsemicolon hu') hafter
      rfl

theorem ItemTokens.same {us : List Token} {item item' : Item} (h : ItemTokens us item)
    (h' : ItemTokens us item') : SameItem us item item' := by
  have hkeyword : ∃ t, ItemKeyword t item ∧ ItemKeyword t item' := by
    obtain ⟨n, modifiers, t, rest, rfl, hmodifiers, hplain, ht⟩ := h.starts
    obtain ⟨n', modifiers', t', rest', heq, hmodifiers', hplain', ht'⟩ := h'.starts
    obtain ⟨-, -, hmore⟩ := hmodifiers.unique hmodifiers' hplain hplain'.endsModifiers heq
    obtain ⟨rfl, -⟩ := List.cons.inj hmore
    exact ⟨t, ht, ht'⟩
  have htype {s : String} {t : Token} {kind : TypeKind} (ht : t.kind = .word s)
      (hs : s = "package" ∨ s = "import") (hkind : t.kind = typeKeyword kind) : False := by
    rw [ht] at hkind
    rcases hs with rfl | rfl <;> revert hkind <;> cases kind <;> decide
  obtain ⟨t, ht, ht'⟩ := hkeyword
  cases item with
  | package name =>
    cases item' with
    | package name' =>
      obtain rfl := h.package_unique h'
      exact .package name
    | «import» form' name' => exact absurd (TokenKind.word.inj (ht.symm.trans ht')) (by decide)
    | type d' => exact (htype ht (.inl rfl) ht'.choose_spec).elim
  | «import» form name =>
    cases item' with
    | package name' => exact absurd (TokenKind.word.inj (ht.symm.trans ht')) (by decide)
    | «import» form' name' => exact .import form form' name name'
    | type d' => exact (htype ht (.inr rfl) ht'.choose_spec).elim
  | type d =>
    cases item' with
    | package name' => exact (htype ht' (.inl rfl) ht.choose_spec).elim
    | «import» form' name' => exact (htype ht' (.inr rfl) ht.choose_spec).elim
    | type d' =>
      cases h with
      | type h =>
        cases h' with
        | type h' => exact .type h h'

end LookupGen.Java
