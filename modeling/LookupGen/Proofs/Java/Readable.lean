import LookupGen.Program.Evaluate
import LookupGen.Proofs.Java.Segments

/-!
# Readable source files

In any source file the names that are declared are words. In a source file that is UTF-8 each part
has a text, too. A source file whose character literals stand for one character each is readable as
a whole.
-/

namespace LookupGen.Java

variable {S : PartSpec} {content : Bytes} {t : Text}

theorem holds_of_parseFile (hS : S.Of (Token.read (Glyph.read content))) {items : List Item}
    (h : parseFile content = .ok items) : ∀ item ∈ items, item.Holds S := by
  unfold parseFile at h
  simp only at h
  split at h
  · rename_i all hall
    obtain rfl := Except.ok.inj h
    exact holds_of_parseItems hS hall
  · cases h

def PartSpec.lettered : PartSpec where
  field _ := True
  owner _ := True
  type _ := True
  otherType _ := True
  brackets _ := True
  declared := Name.IsWord
  member := Name.IsWord
  path _ := True
  string _ := True
  character _ := True
  integer _ := True

theorem lettered_of (content : Bytes) : PartSpec.lettered.Of (Token.read (Glyph.read content)) where
  field _ _ := trivial
  owner _ _ _ := trivial
  type _ _ := trivial
  otherType _ _ := trivial
  brackets _ _ _ := trivial
  declared _ hn := isWord_of_mem_words hn
  member _ hn := isWord_of_mem_words hn
  path _ _ _ := trivial
  string _ _ _ := trivial
  character _ _ _ := trivial
  integer _ _ _ := trivial

namespace Glyph

theorem readFrom_of_decodeFrom {position skip : Nat}
    (h : Utf8.decodeFrom position skip content = .ok t) :
    ∃ cs, readFrom skip content = List.map char cs := by
  induction content generalizing position skip t with
  | nil => exact ⟨[], by rw [readFrom, List.map_nil]⟩
  | cons b rest ih =>
    cases skip with
    | succ skip =>
      rw [Utf8.decodeFrom] at h
      rw [readFrom]
      exact ih h
    | zero =>
      rw [Utf8.decodeFrom] at h
      rw [readFrom]
      cases hfirst : Utf8.first b rest with
      | error fault =>
        rw [hfirst] at h
        cases h
      | ok r =>
        obtain ⟨value, size⟩ := r
        rw [hfirst] at h
        simp only at h ⊢
        cases hrest : Utf8.decodeFrom (position + 1) (size - 1) rest with
        | error e =>
          rw [hrest] at h
          cases h
        | ok u =>
          obtain ⟨cs, hcs⟩ := ih hrest
          exact ⟨Char.ofNat value :: cs, by rw [hcs, List.map_cons]⟩

theorem text_of_decode (hdecode : Utf8.decode content = .ok t) {gs : List Glyph}
    (h : gs <:+: read content) : ∃ n, text gs = .ok n := by
  obtain ⟨cs, hcs⟩ := readFrom_of_decodeFrom hdecode
  have hinfix := h.trans (read_suffix content).isInfix
  rw [hcs] at hinfix
  obtain ⟨ds, -, rfl⟩ := List.infix_map_iff.mp hinfix
  exact ⟨_, text_chars ds⟩

end Glyph

theorem span_infix {us ts : List Token} (h : us <:+: ts) : Token.span us <:+: Token.source ts := by
  obtain ⟨before, after, rfl⟩ := h
  refine (span_suffix us).isInfix.trans ⟨Token.source before, Token.source after, ?_⟩
  simp only [Token.source, List.flatMap_append]

def IsSingle (literal : Text) : Prop := (Literal.decode (unquote 1 literal)).length = 1

/-- Each part has a text, and a character literal stands for one character. -/
def PartSpec.readable : PartSpec where
  field _ := True
  owner w := ∃ t, w = .ok t
  type w := ∃ t, w = .ok t
  otherType w := ∃ t, w = .ok t
  brackets n := 0 < n
  declared _ := True
  member _ := True
  path w := ∃ t, w = .ok t
  string w := ∃ t, w = .ok t
  character w := ∃ t, w = .ok t ∧ IsSingle t
  integer w := ∃ t, w = .ok t

/-- The character literals of a file stand for one character each. -/
def SingleCharacters (content : Bytes) : Prop :=
  ∀ u ∈ Token.read (Glyph.read content), u.kind = .character →
    ∀ t, Glyph.text u.glyphs = .ok t → IsSingle t

instance (literal : Text) : Decidable (IsSingle literal) := inferInstanceAs (Decidable (_ = _))

instance decidableForallOk {ε α : Type} (x : Except ε α) (P : α → Prop) [DecidablePred P] :
    Decidable (∀ a, x = .ok a → P a) :=
  match x with
  | .error _ => isTrue nofun
  | .ok a => decidable_of_iff (P a) ⟨fun h _ ha => Except.ok.inj ha ▸ h, fun h => h a rfl⟩

instance (content : Bytes) : Decidable (SingleCharacters content) :=
  inferInstanceAs (Decidable (∀ u ∈ Token.read (Glyph.read content), _))

theorem mem_span {us : List Token} {u : Token} {g : Glyph} (hu : u ∈ us) (hg : g ∈ u.glyphs) :
    g ∈ Token.span us := by
  cases us with
  | nil => cases hu
  | cons first rest =>
    rw [span_cons]
    rcases List.mem_cons.mp hu with rfl | hu
    · exact List.mem_append_left _ hg
    · exact List.mem_append_right _ (List.mem_flatMap.mpr ⟨u, hu, List.mem_append_right _ hg⟩)

theorem countP_of_bracket {us : List Token} (hus : us <:+: Token.read (Glyph.read content))
    (h : ∃ u ∈ us, u.kind = .sign "[") : 0 < (Token.span us).countP (Glyph.is '[') := by
  obtain ⟨u, hu, hkind⟩ := h
  obtain ⟨before, after, hfile⟩ := List.append_of_mem (hus.subset hu)
  have hformed := (Token.wellRead_of_read hfile).formed
  rw [hkind] at hformed
  have hglyph : Glyph.char '[' ∈ u.glyphs := by
    rw [hformed.of_sign.2]
    decide
  exact List.countP_pos_iff.mpr ⟨_, mem_span hu hglyph, rfl⟩

theorem readable_of (hdecode : Utf8.decode content = .ok t) (hsingle : SingleCharacters content) :
    PartSpec.readable.Of (Token.read (Glyph.read content)) := by
  have hspan {us : List Token} (hus : us <:+: Token.read (Glyph.read content)) :
      ∃ t, Glyph.text (Token.span us) = .ok t := by
    apply Glyph.text_of_decode hdecode
    have hinfix := span_infix hus
    rwa [Token.source_read] at hinfix
  have htoken {u : Token} (hu : u ∈ Token.read (Glyph.read content)) :
      ∃ t, Glyph.text u.glyphs = .ok t := by
    have htext := hspan (Parser.infix_of_mem hu)
    rwa [Token.span_singleton] at htext
  exact {
    field := fun _ _ => trivial
    owner := fun _ hus _ => hspan hus
    type := fun _ hus => hspan hus
    otherType := fun _ hus => hspan hus
    brackets := fun _ hus h => countP_of_bracket hus h
    declared := fun _ _ => trivial
    member := fun _ _ => trivial
    path := fun _ hus _ => hspan hus
    string := fun _ hu _ => htoken hu
    character := by
      intro u hu hkind
      obtain ⟨t, ht⟩ := htoken hu
      exact ⟨t, ht, hsingle u hu hkind t ht⟩
    integer := fun _ hu _ => htoken hu }

end LookupGen.Java
