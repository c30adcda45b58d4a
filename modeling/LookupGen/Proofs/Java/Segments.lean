import LookupGen.Proofs.Java.Glyph
import LookupGen.Proofs.Java.Reading
import LookupGen.Proofs.Java.Spelling.Files
import LookupGen.Proofs.Name.Dotted

/-!
# Segments that are words

Names are compared by their segments. A name that a file spells may have blanks and comments in it;
if the first or the last segment of it is a word nevertheless, then it is a word of the file.
-/

namespace LookupGen.Java

open Name (IsWord Outside)
open Token (Formed WellRead source span Closed)
open Glyph (Reads ofChar_injective)

variable {t : Token} {s : String} {n : Name}

theorem continues_ofChar (c : Char) :
    Name.continues (CodePoint.ofChar c) = Token.continuesWord c := by
  unfold Name.continues Token.continuesWord
  congr 1
  rw [Bool.eq_iff_iff, decide_eq_true_iff, beq_iff_eq]
  exact ⟨ofChar_injective, congrArg _⟩

theorem outside_of_isSpace {c : Char} (h : Token.isSpace c = true) :
    Outside (CodePoint.ofChar c) := by
  simp only [Token.isSpace, Bool.or_eq_true, Bool.and_eq_true, decide_eq_true_eq, beq_iff_eq] at h
  have hmem : c.toNat ∈ [9, 10, 11, 12, 13, 32] := by
    rcases h with h | rfl
    · simp only [List.mem_cons, List.not_mem_nil, or_false]
      omega
    · decide
  have hall : ∀ n ∈ [9, 10, 11, 12, 13, 32], Outside (CodePoint.ofChar (Char.ofNat n)) := by
    decide
  rw [← Char.ofNat_toNat c]
  exact hall _ hmem

theorem outside_quote {c : Char} (h : c = '"' ∨ c = '\'') : Outside (CodePoint.ofChar c) := by
  rcases h with rfl | rfl
  · decide
  · decide

theorem outside_of_closed {gap : List Glyph} {c : Char} (h : Closed gap)
    (hc : gap.getLast? = some (.char c)) : Outside (CodePoint.ofChar c) ∧ c ≠ '.' := by
  rcases h _ hc with hspace | hslash
  · refine ⟨outside_of_isSpace hspace, ?_⟩
    rintro rfl
    exact absurd hspace (by decide)
  · obtain rfl := Glyph.char.inj hslash
    exact ⟨by decide, by decide⟩

theorem reads_word {glyphs after : List Glyph} {w : Name} (h : Formed (.word s) glyphs after)
    (hw : Reads glyphs w) : w = Text.ofString s ∧ IsWord w ∧
      ∀ g ∈ after.head?, g.satisfies Token.continuesWord = false := by
  obtain ⟨c, cs, hglyphs, rfl, hstart, hrest, hafter⟩ := h.of_word
  rw [hglyphs] at hw
  obtain rfl := hw.of_chars
  refine ⟨?_, ⟨⟨_, rfl, hstart⟩, ?_⟩, hafter⟩
  · rw [Text.ofString, String.toList_ofList]
  · intro x hx
    obtain ⟨d, hd, rfl⟩ := List.mem_map.mp hx
    rw [continues_ofChar]
    exact hrest d hd

/-- Tokens that stand next to each other in a file, with the glyphs after them. -/
structure Stretch (us : List Token) (after : List Glyph) : Prop where
  wellRead : ∀ xs t ys, us = xs ++ t :: ys → WellRead t (source ys ++ after)

variable {us xs : List Token} {after : List Glyph}

theorem span_cons (t : Token) (us : List Token) : span (t :: us) = t.glyphs ++ source us := rfl

theorem span_suffix (us : List Token) : span us <:+ source us := by
  cases us with
  | nil => exact List.suffix_rfl
  | cons t us => exact ⟨t.gap, by rw [span_cons, Token.source_cons, List.append_assoc]⟩

theorem Stretch.word (h : Stretch (xs ++ [t]) after) (ht : t.kind = .word s) {w : Name}
    (hw : Reads t.glyphs w) : w = Text.ofString s ∧ IsWord w := by
  have hformed := (h.wellRead xs t [] rfl).formed
  rw [ht] at hformed
  obtain ⟨heq, hword, -⟩ := reads_word hformed hw
  exact ⟨heq, hword⟩

theorem Stretch.head_mem_words (h : Stretch us after) (hn : Reads (span us) n)
    (hword : IsWord n.head) : n.head ∈ words us := by
  obtain ⟨x, hx, hstart⟩ := hword.start
  obtain ⟨c, rfl, hc⟩ := hn.head? (Name.head_of_head hx)
  cases us with
  | nil => cases hc
  | cons t ys =>
    have hformed := (h.wellRead [] t ys rfl).formed
    rw [span_cons] at hn hc
    obtain ⟨s, hs⟩ : ∃ s, t.kind = .word s := by
      cases hglyphs : t.glyphs with
      | nil =>
        rw [hglyphs] at hformed hc
        rw [(List.append_eq_nil_iff.mp hformed.after_eq_nil).1] at hc
        cases hc
      | cons g more =>
        rw [hglyphs] at hformed hc
        obtain rfl := Option.some.inj hc
        exact hformed.start (g := .char c) rfl hstart
    obtain ⟨w, rest, rfl, hw, hrest⟩ := hn.of_append
    rw [hs] at hformed
    obtain ⟨rfl, hisWord, hafter⟩ := reads_word hformed hw
    rw [Name.head_word_append hisWord ?_ hword]
    · exact mem_words List.mem_cons_self hs
    · intro y hy
      obtain ⟨d, rfl, hd⟩ := hrest.head? hy
      rw [continues_ofChar]
      refine hafter (.char d) ?_
      rw [List.head?_append, hd]
      rfl

def Token.Outside (t : Token) : Prop :=
  ∃ c, t.glyphs.getLast? = some (.char c) ∧ Name.Outside (CodePoint.ofChar c)

theorem getLast?_span {g : Glyph} (h : t.glyphs.getLast? = some g) :
    (span (xs ++ [t])).getLast? = some g := by
  cases xs with
  | nil =>
    rw [List.nil_append, Token.span_singleton, h]
  | cons u xs =>
    rw [Token.span_append (List.cons_ne_nil u xs), List.getLast?_append, span_cons]
    simp [source, h]

theorem outside_of_sign {after : List Glyph} (h : Formed t.kind t.glyphs after)
    (hs : s ∈ [")", "]", "\x7d", ".", "::", ">"]) (ht : t.kind = .sign s) : t.Outside := by
  have hall : ∀ s ∈ [")", "]", "\x7d", ".", "::", ">"],
      (s.toList.getLast?.any fun c => Outside (CodePoint.ofChar c)) = true := by
    decide
  rw [ht] at h
  obtain ⟨c, hc, hout⟩ := (Option.any_eq_true _ _).mp (hall s hs)
  exact ⟨c, by rw [h.of_sign.2, List.getLast?_map, hc]; rfl, of_decide_eq_true hout⟩

theorem outside_of_closes {after : List Glyph} (h : Formed t.kind t.glyphs after) (ht : t.Closes) :
    t.Outside := by
  rcases ht with ht | ht | ht | ht
  · generalize hglyphs : t.glyphs = glyphs at h
    rw [ht] at h
    cases h with
    | quoted hkind hstart hc hlast =>
      exact ⟨_, hglyphs ▸ hlast, outside_quote hc⟩
    | number hkind => rcases hkind with hkind | hkind <;> cases hkind
  · exact outside_of_sign h (by decide) ht
  · exact outside_of_sign h (by decide) ht
  · exact outside_of_sign h (by decide) ht

theorem outside_of_separates {after : List Glyph} (h : Formed t.kind t.glyphs after)
    (ht : t.Separates) : t.Outside := by
  rcases ht with ht | ht | ht
  · exact outside_of_sign h (by decide) ht
  · exact outside_of_sign h (by decide) ht
  · exact outside_of_sign h (by decide) ht

theorem outside_last {gs : List Glyph} (hn : Reads gs n)
    (h : ∀ c, gs.getLast? = some (.char c) → Outside (CodePoint.ofChar c)) :
    ∀ x ∈ n.getLast?, Outside x := by
  intro x hx
  obtain ⟨c, rfl, hc⟩ := hn.getLast? hx
  exact h c hc

theorem not_isWord_of_last {gs : List Glyph} {c : Char} (hlast : gs.getLast? = some (.char c))
    (hout : Outside (CodePoint.ofChar c)) (hn : Reads gs n) : ¬ IsWord n.simple := by
  refine Name.not_isWord_simple (outside_last hn fun d hd => ?_)
  rw [hlast] at hd
  exact Glyph.char.inj (Option.some.inj hd) ▸ hout

theorem Stretch.exists_before {w : Token} (h : Stretch (xs ++ [t, w]) after) (ht : t.Outside)
    (hw : w.kind = .word s) (hn : Reads (span (xs ++ [t, w])) n) :
    IsWord (Text.ofString s) ∧ ∃ front gap, n = front ++ gap ++ Text.ofString s ∧
      Reads (span (xs ++ [t])) front ∧ Reads w.gap gap ∧
      ∀ c ∈ (front ++ gap).getLast?, Outside c := by
  have hsplit : xs ++ [t, w] = (xs ++ [t]) ++ [w] := by simp
  rw [hsplit] at h hn
  rw [Token.span_append (List.append_ne_nil_of_right_ne_nil xs (List.cons_ne_nil t []))] at hn
  obtain ⟨before, word, rfl, hbefore, hword⟩ := hn.of_append
  obtain ⟨front, gap, rfl, hfront, hgap⟩ := hbefore.of_append
  rw [Token.span_singleton] at hword
  obtain ⟨rfl, hisWord⟩ := h.word hw hword
  refine ⟨hisWord, front, gap, rfl, hfront, hgap, outside_last hbefore fun d hd => ?_⟩
  have hclosed : Closed w.gap := (h.wellRead _ _ [] rfl).closed s (.inl hw)
  rw [List.getLast?_append] at hd
  cases hlast : w.gap.getLast? with
  | some g =>
    rw [hlast] at hd
    obtain rfl := Option.some.inj hd
    exact (outside_of_closed hclosed hlast).1
  | none =>
    obtain ⟨c, hc, hout⟩ := ht
    rw [hlast, getLast?_span hc] at hd
    obtain rfl := Glyph.char.inj (Option.some.inj hd)
    exact hout

theorem dangling_of_number {g : Glyph} {more : List Glyph} {dot : Nat}
    (hstart : g.satisfies Token.startsWord = false)
    (hbefore : Token.Between Token.Continues (g :: more) 0 dot)
    (hrest : Token.Between Token.Plain (g :: more) (dot + 1) (g :: more).length)
    (hn : Reads (g :: more) n) (hword : IsWord n.simple) : n.package.Dangling := by
  have hnostart {x : CodePoint} (hx : x ∈ n.head?) : Name.isStart x = false := by
    obtain ⟨d, rfl, hd⟩ := hn.head? hx
    obtain rfl := Option.some.inj hd
    exact hstart
  by_cases hdot : CodePoint.ofChar '.' ∈ n
  · have heq := Name.package_simple hdot
    generalize n.package = package at heq ⊢
    generalize n.simple = last at heq
    have hat (i : Nat) (hi : i < package.length) : n[i]? = package[i]? := by
      rw [heq, List.getElem?_append_left hi]
    have hle : package.length ≤ dot := by
      have hget : n[package.length]? = some (CodePoint.ofChar '.') := by simp [heq]
      obtain ⟨d, hd, hglyph⟩ := hn.getElem? hget
      obtain rfl := ofChar_injective hd
      apply Nat.le_of_not_lt
      intro hlt
      have hplain := hrest _ _ hglyph hlt (List.getElem?_eq_some_iff.mp hglyph).1
      cases hplain
    constructor
    · intro x hx
      apply hnostart
      rw [heq, List.head?_append, hx]
      rfl
    · intro x hx
      obtain ⟨i, hi, rfl⟩ := List.mem_iff_getElem.mp hx
      obtain ⟨d, hd, hglyph⟩ := hn.getElem? ((hat i hi).trans (List.getElem?_eq_getElem hi))
      rw [hd, continues_ofChar]
      exact hbefore _ _ hglyph (Nat.zero_le i) (by omega)
  · obtain ⟨x, hx, hyes⟩ := hword.start
    rw [Name.simple_of_not_mem hdot] at hx
    exact absurd hyes (Bool.eq_false_iff.mp (hnostart hx))

theorem simple_of_single (h : Formed t.kind t.glyphs after) (hn : Reads t.glyphs n)
    (hword : IsWord n.simple) : n.simple ∈ words [t] ∨ n.package.Dangling := by
  generalize hglyphs : t.glyphs = glyphs at h hn
  generalize hkind : t.kind = kind at h
  cases h with
  | word hstart hrest hafter =>
    obtain ⟨rfl, hisWord, -⟩ := reads_word (.word hstart hrest hafter) hn
    rw [Name.simple_of_not_mem hisWord.dot_not_mem]
    exact .inl (mem_words List.mem_cons_self hkind)
  | sign hs =>
    rename_i s
    have hall : ∀ s ∈ Token.signs,
        (s.toList.getLast?.any fun c => Outside (CodePoint.ofChar c)) = true ∨
          '.' ∉ s.toList ∧ (s.toList.head?.any Token.startsWord) = false := by
      decide
    rcases hall s hs with hlast | ⟨hdot, hstart⟩
    · obtain ⟨c, hc, hout⟩ := (Option.any_eq_true _ _).mp hlast
      refine absurd hword (not_isWord_of_last (c := c) ?_ (of_decide_eq_true hout) hn)
      rw [List.getLast?_map, hc]
      rfl
    · obtain rfl := hn.of_chars
      obtain ⟨x, hx, hyes⟩ := hword.start
      rw [Name.simple_of_not_mem] at hx
      · rw [List.head?_map] at hx
        obtain ⟨c, hc, rfl⟩ := Option.map_eq_some_iff.mp hx
        rw [hc] at hstart
        exact absurd hyes (Bool.eq_false_iff.mp hstart)
      · intro hmem
        obtain ⟨c, hc, heq⟩ := List.mem_map.mp hmem
        exact hdot (ofChar_injective heq ▸ hc)
  | quoted _ _ hc hlast =>
    exact absurd hword (not_isWord_of_last hlast (outside_quote hc) hn)
  | number _ hstart hbefore hrest => exact .inr (dangling_of_number hstart hbefore hrest hn hword)
  | stray hstart =>
    obtain ⟨x, hx, hyes⟩ := hword.start
    have hlength : n.length = 1 := by
      obtain ⟨cs, hcs, rfl⟩ := hn
      rw [List.length_map, ← List.length_map (f := Glyph.char), ← hcs]
      rfl
    rw [Name.simple_of_length_eq_one hlength hword] at hx
    obtain ⟨d, rfl, hd⟩ := hn.head? hx
    obtain rfl := Option.some.inj hd
    exact absurd hyes (Bool.eq_false_iff.mp hstart)
  | finish =>
    obtain rfl := hn.of_nil
    exact absurd rfl hword.ne_nil

/-- The last segment of the text of an operand is a word of its tokens, if it is a word at all. Else
the operand is a number. -/
theorem Stretch.simple_of_operand (h : Stretch us after) (hus : OperandTokens us)
    (hn : Reads (span us) n) (hword : IsWord n.simple) :
    n.simple ∈ words us ∨ n.package.Dangling := by
  rcases hus with ⟨t, rfl⟩ | hended
  · rw [Token.span_singleton] at hn
    exact simple_of_single (h.wellRead [] t [] rfl).formed hn hword
  · cases hended with
    | closed before hcloses =>
      obtain ⟨c, hlast, hout⟩ := outside_of_closes (h.wellRead before _ [] rfl).formed hcloses
      exact absurd hword (not_isWord_of_last (getLast?_span hlast) hout hn)
    | named before hseparates hw =>
      rename_i t w s
      have hout := outside_of_separates (h.wellRead before t [w] rfl).formed hseparates
      obtain ⟨hisWord, front, gap, rfl, -, -, hlast⟩ := h.exists_before hout hw hn
      left
      rw [Name.simple_append_word hisWord hlast hword]
      exact mem_words (by simp) hw

theorem Stretch.left {vs : List Token} (h : Stretch (us ++ vs) after) :
    Stretch us (source vs ++ after) := by
  constructor
  rintro xs t ys rfl
  have hread := h.wellRead xs t (ys ++ vs) (by simp)
  rwa [source, List.flatMap_append, List.append_assoc] at hread

theorem Dotted.ne_nil (h : Dotted us) : us ≠ [] := by
  cases h with
  | word => exact List.cons_ne_nil _ _
  | more => exact List.append_ne_nil_of_right_ne_nil _ (List.cons_ne_nil _ _)

/-- Where the last two segments are words, nothing stands between the first of them and the dot. -/
theorem Stretch.reads_package {dot w : Token} (h : Stretch (us ++ [dot, w]) after) (hus : us ≠ [])
    (hdot : dot.kind = .sign ".") (hw : w.kind = .word s) (hn : Reads (span (us ++ [dot, w])) n)
    (hword : IsWord n.simple) (howner : IsWord n.package.simple) : Reads (span us) n.package := by
  have hread := h.wellRead us dot [w] rfl
  have hgap : Closed w.gap := (h.wellRead (us ++ [dot]) w [] (by simp)).closed s (.inl hw)
  have hformed := hread.formed
  obtain ⟨hisWord, front, gap, rfl, hfront, hreads, hlast⟩ :=
    h.exists_before (outside_of_sign hformed (by decide) hdot) hw hn
  have hsimple := Name.simple_append_word hisWord hlast hword
  rw [Token.span_append hus, Token.span_singleton] at hfront
  obtain ⟨owner, point, rfl, howners, hpoint⟩ := hfront.of_append
  rw [hdot] at hformed
  rw [hformed.of_sign.2] at hpoint
  obtain rfl := hpoint.of_chars
  have heq : owner ++ List.map CodePoint.ofChar ".".toList ++ gap ++ Text.ofString s =
      owner ++ CodePoint.ofChar '.' :: (gap ++ Text.ofString s) := by
    simp
  have hdotless : ∀ x ∈ gap.getLast?, x ≠ CodePoint.ofChar '.' := by
    intro x hx
    obtain ⟨d, rfl, hd⟩ := hreads.getLast? hx
    exact fun h => (outside_of_closed hgap hd).2 (ofChar_injective h)
  rw [heq, Name.simple_append] at hsimple
  rw [heq, Name.package_append_word _ hdotless hsimple] at howner ⊢
  cases hend : dot.gap.getLast? with
  | some g =>
    refine absurd howner (Name.not_isWord_simple (outside_last howners fun d hd => ?_))
    rw [List.getLast?_append, hend] at hd
    obtain rfl := Option.some.inj hd
    exact (outside_of_closed (hread.closed _ (.inr hdot)) hend).1
  | none =>
    rw [List.getLast?_eq_none_iff.mp hend, List.append_nil] at howners
    exact howners

theorem words_subset {ts file : List Token} (h : ts ⊆ file) : words ts ⊆ words file :=
  List.filterMap_subset _ h

theorem Stretch.segments_of_dotted (h : Stretch us after) (hus : Dotted us)
    (hn : Reads (span us) n) :
    n.WordEnded ∧ (IsWord n.simple → n.simple ∈ words us ∧
      (IsWord n.package.simple → n.package.simple ∈ words us)) := by
  induction hus generalizing n after with
  | word hw =>
    rename_i w s
    rw [Token.span_singleton] at hn
    rw [← List.nil_append [w]] at h
    obtain ⟨rfl, hisWord⟩ := h.word hw hn
    refine ⟨hisWord.wordEnded, fun _ => ⟨?_, ?_⟩⟩
    · rw [Name.simple_of_not_mem hisWord.dot_not_mem]
      exact mem_words List.mem_cons_self hw
    · rw [Name.package_of_not_mem hisWord.dot_not_mem]
      exact fun h => absurd rfl h.ne_nil
  | more hdotted hdot hw ih =>
    rename_i ts dot w s
    have hout := outside_of_sign (h.wellRead ts dot [w] rfl).formed (by decide) hdot
    have hpackage := h.reads_package hdotted.ne_nil hdot hw hn
    obtain ⟨hisWord, front, gap, rfl, -, -, hlast⟩ := h.exists_before hout hw hn
    refine ⟨⟨front ++ gap, _, rfl, hisWord, hlast⟩, fun hword => ⟨?_, fun howner => ?_⟩⟩
    · rw [Name.simple_append_word hisWord hlast hword]
      exact mem_words (by simp) hw
    · apply words_subset (List.subset_append_left ts [dot, w])
      exact ((ih h.left (hpackage hword howner)).2 howner).1

variable {content : Bytes} {E : List Token → Prop}

theorem isWord_of_mem_words (h : n ∈ words (Token.read (Glyph.read content))) : IsWord n := by
  obtain ⟨t, ht, hn⟩ := List.mem_filterMap.mp h
  obtain ⟨before, after, hfile⟩ := List.append_of_mem ht
  have hformed := (Token.wellRead_of_read hfile).formed
  cases hkind : t.kind with
  | word s =>
    rw [hkind] at hn hformed
    obtain rfl := Option.some.inj hn
    obtain ⟨c, cs, hglyphs, -⟩ := hformed.of_word
    obtain ⟨heq, hword, -⟩ := reads_word hformed ⟨_, hglyphs, rfl⟩
    exact heq ▸ hword
  | sign | integer | floating | character | string | stray | finish =>
    rw [hkind] at hn
    cases hn

theorem stretch_of_infix (h : us <:+: Token.read (Glyph.read content)) :
    ∃ after, Stretch us after := by
  obtain ⟨before, after, hfile⟩ := h
  refine ⟨source after, ⟨?_⟩⟩
  rintro xs t ys rfl
  have hat : Token.read (Glyph.read content) = (before ++ xs) ++ t :: (ys ++ after) := by
    rw [← hfile]
    simp
  have hread := Token.wellRead_of_read hat
  rwa [source, List.flatMap_append] at hread

theorem reads_of_infix (h : us <:+: Token.read (Glyph.read content))
    (htext : Glyph.text (span us) = .ok n) : Reads (span us) n := by
  have hinfix : span us <:+: Glyph.read content := by
    obtain ⟨before, after, hfile⟩ := h
    rw [← Token.source_read (Glyph.read content), ← hfile, source, List.flatMap_append,
      List.flatMap_append]
    exact (span_suffix us).isInfix.trans (List.infix_append _ _ _)
  exact Glyph.reads_of_text hinfix htext

theorem exists_stretch (h : Spells (Token.read (Glyph.read content)) E n) :
    ∃ us after, us ⊆ Token.read (Glyph.read content) ∧ E us ∧ Stretch us after ∧
      Reads (span us) n := by
  obtain ⟨us, hinfix, hE, htext⟩ := h
  obtain ⟨after, hstretch⟩ := stretch_of_infix hinfix
  exact ⟨us, after, hinfix.subset, hE, hstretch, reads_of_infix hinfix htext⟩

end LookupGen.Java
