import LookupGen.Proofs.Java.Ends
import LookupGen.Proofs.Java.Parts

/-!
# How names are spelled

The simple names that the grammar takes from a file are words of the file. All other names are texts
of tokens that stand next to each other in it.
-/

namespace LookupGen.Java

open Java.Parser

def words (ts : List Token) : List Name :=
  ts.filterMap fun t => match t.kind with
    | .word s => some (Text.ofString s)
    | _ => none

theorem mem_words {ts : List Token} {t : Token} (ht : t ∈ ts) {s : String} (hs : t.kind = .word s) :
    Text.ofString s ∈ words ts :=
  List.mem_filterMap.mpr ⟨t, ht, by rw [hs]⟩

inductive Dotted : List Token → Prop where
  | word {w : Token} {s : String} (h : w.kind = .word s) : Dotted [w]
  | more {ts : List Token} {dot w : Token} {s : String} (h : Dotted ts)
      (hdot : dot.kind = .sign ".") (hw : w.kind = .word s) : Dotted (ts ++ [dot, w])

def Spells (file : List Token) (E : List Token → Prop) (n : Name) : Prop :=
  ∃ us, us <:+: file ∧ E us ∧ Glyph.text (Token.span us) = .ok n

def NameSpec.spelled (file : List Token) : NameSpec where
  field n := n ∈ words file
  owner := Spells file OperandTokens
  type := Spells file fun _ => True
  declared n := n ∈ words file
  path := Spells file Dotted

/-- No more is asked of the parts of a file than the grammar makes sure of. -/
structure PartSpec.Of (S : PartSpec) (file : List Token) : Prop where
  field : ∀ n ∈ words file, S.field n
  owner : ∀ us, us <:+: file → OperandTokens us → S.owner (Glyph.text (Token.span us))
  type : ∀ us, us <:+: file → S.type (Glyph.text (Token.span us))
  otherType : ∀ us, us <:+: file → S.otherType (Glyph.text (Token.span us))
  brackets : ∀ us, us <:+: file → (∃ t ∈ us, t.kind = .sign "[") →
    S.brackets ((Token.span us).countP (Glyph.is '['))
  declared : ∀ n ∈ words file, S.declared n
  member : ∀ n ∈ words file, S.member n
  path : ∀ us, us <:+: file → Dotted us → S.path (Glyph.text (Token.span us))
  string : ∀ t ∈ file, t.kind = .string → S.string (Glyph.text t.glyphs)
  character : ∀ t ∈ file, t.kind = .character → S.character (Glyph.text t.glyphs)
  integer : ∀ t ∈ file, t.kind = .integer → S.integer (Glyph.text t.glyphs)

theorem NameSpec.spelled_of (file : List Token) : (NameSpec.spelled file).parts.Of file where
  field _ hn := hn
  owner us hus hoperand _ hn := ⟨us, hus, hoperand, hn⟩
  type us hus _ hn := ⟨us, hus, trivial, hn⟩
  otherType _ _ := trivial
  brackets _ _ _ := trivial
  declared _ hn := hn
  member _ _ := trivial
  path us hus hdotted _ hn := ⟨us, hus, hdotted, hn⟩
  string _ _ _ := trivial
  character _ _ _ := trivial
  integer _ _ _ := trivial

@[simp] theorem Token.span_singleton (t : Token) : span [t] = t.glyphs := List.append_nil t.glyphs

theorem Token.span_append {us vs : List Token} {t : Token} (hus : us ≠ []) :
    span (us ++ t :: vs) = span us ++ t.gap ++ span (t :: vs) := by
  cases us with
  | nil => exact absurd rfl hus
  | cons u us => simp [span]

namespace Parser

variable {α β : Type}

structure Yields (file : List Token) (p : Parser α) (V : α → Prop) : Prop where
  value : ∀ {ts a rest}, ts <:+ file → Takes p ts a rest → V a

variable {file : List Token} {p q : Parser α} {f : α → Parser β} {V : α → Prop} {U : β → Prop}

theorem yields_true (p : Parser α) : Yields file p fun _ => True := ⟨fun _ _ => trivial⟩

theorem yields_pure {a : α} (h : V a) : Yields file (pure a) V := by
  constructor
  intro ts b rest _ htakes
  obtain ⟨rfl, -⟩ := takes_pure.mp htakes
  exact h

theorem yields_refuse : Yields file (refuse : Parser α) V := ⟨fun _ h => absurd h not_takes_refuse⟩

theorem Yields.bind [Advances p] (hp : Yields file p V) (hf : ∀ a, V a → Yields file (f a) U) :
    Yields file (p >>= f) U := by
  constructor
  intro ts b rest hts htakes
  obtain ⟨a, mid, hleft, hright⟩ := takes_bind.mp htakes
  exact (hf a (hp.value hts hleft)).value ((Advances.suffix hleft).trans hts) hright

theorem yields_bind [Advances p] (hf : ∀ a, Yields file (f a) U) : Yields file (p >>= f) U :=
  (yields_true p).bind fun a _ => hf a

theorem Yields.orElse (hp : Yields file p V) (hq : Yields file q V) :
    Yields file (orElse p q) V := by
  constructor
  intro ts a rest hts htakes
  rcases takes_orElse htakes with h | h
  · exact hp.value hts h
  · exact hq.value hts h

theorem yields_firstOf {ps : List (Parser α)} (h : ∀ p ∈ ps, Yields file p V) :
    Yields file (firstOf ps) V := by
  constructor
  intro ts a rest hts htakes
  obtain ⟨p, hp, htakes⟩ := takes_firstOf htakes
  exact (h p hp).value hts htakes

theorem Yields.optional (h : Yields file p V) : Yields file (optional p) fun o => ∀ a ∈ o, V a := by
  constructor
  intro ts o rest hts htakes a ha
  rcases takes_optional htakes with ⟨b, rfl, hp⟩ | ⟨rfl, -⟩
  · obtain rfl := Option.some.inj ha
    exact h.value hts hp
  · cases ha

theorem Yields.repeats [Advances p] (h : Yields file p V) {ts rest : List Token} {all : List α}
    (hts : ts <:+ file) (hrepeats : Repeats p ts all rest) : ∀ a ∈ all, V a := by
  induction hrepeats with
  | stop ts => exact fun a ha => absurd ha List.not_mem_nil
  | next htakes _ ih =>
    exact List.forall_mem_cons.mpr ⟨h.value hts htakes, ih ((Advances.suffix htakes).trans hts)⟩

theorem Yields.many [Advances p] (h : Yields file p V) :
    Yields file (many p) fun all => ∀ a ∈ all, V a :=
  ⟨fun hts htakes => h.repeats hts (repeats_of_many htakes)⟩

theorem Yields.separated {separator : Parser β} [Advances p] [Advances separator]
    (h : Yields file p V) : Yields file (separated p separator) fun all => ∀ a ∈ all, V a :=
  h.bind fun _ ha => (yields_bind fun _ => h).many.bind fun _ hmore =>
    yields_pure (List.forall_mem_cons.mpr ⟨ha, hmore⟩)

theorem Yields.commaSeparated [Advances p] (h : Yields file p V) :
    Yields file (commaSeparated p) fun all => ∀ a ∈ all, V a := by
  constructor
  intro ts all rest hts htakes
  rcases takes_commaSeparated htakes with htakes | ⟨rfl, -⟩
  · exact h.separated.value hts htakes
  · exact fun a ha => absurd ha List.not_mem_nil

theorem Yields.enclosed [Advances p] (h : Yields file p V) (opening closing : String) :
    Yields file (enclosed opening p closing) V :=
  yields_bind fun _ => h.bind fun _ ha => yields_bind fun _ => yields_pure ha

theorem Yields.iterate {step : α → Parser α} [∀ a, Advances (step a)]
    (h : ∀ a, V a → Yields file (step a) V) {a : α} (ha : V a) :
    Yields file (iterate step a) V := by
  constructor
  intro ts c rest hts htakes
  have hiterates := iterates_of_iterate htakes
  clear htakes
  induction hiterates with
  | stop ts a => exact ha
  | next hstep _ ih =>
    exact ih ((h _ ha).value hts hstep) ((Advances.suffix hstep).trans hts)

theorem yields_peek : Yields file peek (· ∈ file) := by
  constructor
  intro ts t rest hts htakes
  obtain ⟨-, hhead⟩ := takes_peek htakes
  exact hts.subset (List.mem_of_mem_head? hhead)

theorem yields_peekTwo : Yields file peekTwo (·.1 ∈ file) := by
  constructor
  intro ts t rest hts htakes
  obtain ⟨-, hhead⟩ := takes_peekTwo htakes
  exact hts.subset (List.mem_of_mem_head? hhead)

theorem yields_identifier : Yields file identifier (· ∈ words file) := by
  constructor
  intro ts n rest hts htakes
  obtain ⟨t, s, rfl, ht, rfl⟩ := takes_identifier htakes
  exact mem_words (hts.subset List.mem_cons_self) ht

theorem take_of_takes [Advances p] {ts rest : List Token} {a : α} (h : Takes p ts a rest) :
    ∃ us, ts = us ++ rest ∧ ts.take (ts.length - rest.length) = us := by
  obtain ⟨us, rfl⟩ := exists_of_advances h
  exact ⟨us, rfl, by simp⟩

theorem infix_of_suffix {us rest : List Token} (h : us ++ rest <:+ file) : us <:+: file :=
  (List.prefix_append us rest).isInfix.trans h.isInfix

theorem infix_of_mem {t : Token} (h : t ∈ file) : [t] <:+: file := by
  obtain ⟨before, after, rfl⟩ := List.append_of_mem h
  exact ⟨before, after, by simp⟩

theorem Yields.withSpan [Advances p] (h : Yields file p V) :
    Yields file (withSpan p) fun result => V result.1 ∧ ∃ us, us <:+: file ∧
      result.2 = Token.span us := by
  constructor
  rintro ts ⟨a, span⟩ rest hts htakes
  obtain ⟨htakes, hspan⟩ := takes_withSpan htakes
  obtain ⟨us, rfl, hus⟩ := take_of_takes htakes
  exact ⟨h.value hts htakes, us, infix_of_suffix hts, hspan.trans (congrArg _ hus)⟩

theorem dotted_of_repeats {before ts rest : List Token} {all : List Name} (hbefore : Dotted before)
    (h : Repeats (do let _ ← sign "."; identifier) ts all rest) :
    ∃ us, ts = us ++ rest ∧ Dotted (before ++ us) := by
  induction h generalizing before with
  | stop ts => exact ⟨[], rfl, (List.append_nil before).symm ▸ hbefore⟩
  | next htakes _ ih =>
    obtain ⟨dot, mid, hsign, hname⟩ := takes_bind.mp htakes
    obtain ⟨rfl, hdot⟩ := takes_sign hsign
    obtain ⟨w, s, rfl, hw, -⟩ := takes_identifier hname
    obtain ⟨us, rfl, hus⟩ := ih (hbefore.more hdot hw)
    exact ⟨dot :: w :: us, rfl, by simpa using hus⟩

theorem takes_qualifiedName {ts rest : List Token} {name : Written}
    (h : Takes qualifiedName ts name rest) :
    ∃ us, ts = us ++ rest ∧ Dotted us ∧ name = Glyph.text (Token.span us) := by
  obtain ⟨⟨names, span⟩, mid, hspan, hpure⟩ := takes_bind.mp h
  obtain ⟨rfl, rfl⟩ := takes_pure.mp hpure
  obtain ⟨hnames, hspan⟩ := takes_withSpan hspan
  obtain ⟨us, hus, htake⟩ := take_of_takes hnames
  obtain ⟨first, late, more, -, hfirst, hmore⟩ := takes_separated hnames
  obtain ⟨w, s, rfl, hw, -⟩ := takes_identifier hfirst
  obtain ⟨vs, rfl, hdotted⟩ := dotted_of_repeats (.word hw) hmore
  have heq : us = [w] ++ vs := List.append_cancel_right (hus.symm.trans rfl)
  exact ⟨us, hus, heq ▸ hdotted, by rw [← htake, ← hspan]⟩

theorem yields_qualifiedName : Yields file qualifiedName fun w =>
    ∃ us, us <:+: file ∧ Dotted us ∧ w = Glyph.text (Token.span us) := by
  constructor
  intro ts name rest hts htakes
  obtain ⟨us, rfl, hdotted, hname⟩ := takes_qualifiedName htakes
  exact ⟨us, infix_of_suffix hts, hdotted, hname⟩

end Parser

structure Rules.Spelled (S : PartSpec) (file : List Token) (r : Rules) : Prop where
  spec : S.Of file
  ended : r.Ended
  annotationUse : Yields file r.annotationUse (·.Holds S)
  elementValue : Yields file r.elementValue (·.Holds S)
  expression : Yields file r.expression (·.Holds S)
  unary : Yields file r.unary fun o => o.expr.Holds S
  statement : Yields file r.statement fun o => ∀ item ∈ o, item.Holds S
  typeDeclaration : ∀ m line, m.Holds S →
    Yields file (r.typeDeclaration m line) (·.Holds S)
  members : ∀ kind, Yields file (r.members kind) fun ms => ∀ m ∈ ms, m.Holds S

end LookupGen.Java
