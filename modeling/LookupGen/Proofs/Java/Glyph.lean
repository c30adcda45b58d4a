import LookupGen.Java.Glyph
import LookupGen.Proofs.Text.Utf8

/-!
# The text of a part of a file

A byte that belongs to no character spoils the text of every part of a file that it stands in: the
bytes after it that are in the part cannot make it start a character, since all that follow it could
not.
-/

namespace LookupGen.Java.Glyph

variable {gs post more : List Glyph} {g : Glyph} {content : Bytes} {n : Text}

theorem readFrom_drop (skip : Nat) (content : Bytes) :
    readFrom skip content = readFrom 0 (content.drop skip) := by
  induction content generalizing skip with
  | nil =>
    rw [List.drop_nil, readFrom, readFrom]
  | cons b rest ih =>
    cases skip with
    | zero => rfl
    | succ skip => exact ih skip

theorem readFrom_eq_cons (h : readFrom 0 content = g :: more) :
    ∃ rest, more = readFrom 0 rest ∧ ((∃ c, g = char c) ∨
      ∃ b e, g = stray b ∧ content = b :: rest ∧ Utf8.first b rest = .error e) := by
  cases content with
  | nil => cases h
  | cons b rest =>
    rw [readFrom] at h
    split at h
    · rename_i value size hfirst
      obtain ⟨rfl, rfl⟩ := List.cons.inj h
      exact ⟨_, readFrom_drop _ _, .inl ⟨_, rfl⟩⟩
    · rename_i e hfirst
      obtain ⟨rfl, rfl⟩ := List.cons.inj h
      exact ⟨rest, rfl, .inr ⟨b, e, rfl, rfl, hfirst⟩⟩

theorem exists_of_suffix (h : gs <:+ readFrom 0 content) : ∃ rest, gs = readFrom 0 rest := by
  obtain ⟨before, h⟩ := h
  induction before generalizing content with
  | nil => exact ⟨content, h⟩
  | cons g before ih =>
    obtain ⟨rest, hmore, -⟩ := readFrom_eq_cons h.symm
    exact ih hmore

theorem read_suffix (content : Bytes) : read content <:+ readFrom 0 content := by
  unfold read
  split
  · rename_i rest heq
    rw [heq]
    exact List.suffix_cons _ _
  · exact List.suffix_rfl

theorem ofChar_injective {c d : Char} (h : CodePoint.ofChar c = CodePoint.ofChar d) : c = d := by
  have hval : (CodePoint.ofChar c).val = (CodePoint.ofChar d).val := congrArg Fin.val h
  exact Char.toNat_inj.mp hval

def Reads (gs : List Glyph) (n : Text) : Prop :=
  ∃ cs, gs = List.map char cs ∧ n = List.map CodePoint.ofChar cs

theorem reads_nil : Reads [] [] := ⟨[], rfl, rfl⟩

theorem Reads.of_nil (h : Reads [] n) : n = [] := by
  obtain ⟨cs, hcs, rfl⟩ := h
  rw [List.map_eq_nil_iff.mp hcs.symm, List.map_nil]

theorem Reads.cons (h : Reads gs n) (c : Char) :
    Reads (char c :: gs) (CodePoint.ofChar c :: n) := by
  obtain ⟨cs, rfl, rfl⟩ := h
  exact ⟨c :: cs, rfl, rfl⟩

theorem Reads.of_append {as bs : List Glyph} (h : Reads (as ++ bs) n) :
    ∃ a b, n = a ++ b ∧ Reads as a ∧ Reads bs b := by
  obtain ⟨cs, hcs, rfl⟩ := h
  obtain ⟨xs, ys, rfl, rfl, rfl⟩ := List.append_eq_map_iff.mp hcs
  exact ⟨_, _, List.map_append, ⟨xs, rfl, rfl⟩, ⟨ys, rfl, rfl⟩⟩

theorem Reads.of_chars {cs : List Char} (h : Reads (List.map char cs) n) :
    n = List.map CodePoint.ofChar cs := by
  obtain ⟨ds, hds, rfl⟩ := h
  rw [(List.map_inj_right fun _ _ => char.inj).mp hds]

theorem Reads.getElem? {c : CodePoint} {i : Nat} (h : Reads gs n) (hc : n[i]? = some c) :
    ∃ d, c = CodePoint.ofChar d ∧ gs[i]? = some (char d) := by
  obtain ⟨cs, rfl, rfl⟩ := h
  rw [List.getElem?_map] at hc
  obtain ⟨d, hd, rfl⟩ := Option.map_eq_some_iff.mp hc
  exact ⟨d, rfl, by rw [List.getElem?_map, hd]; rfl⟩

theorem Reads.head? {c : CodePoint} (h : Reads gs n) (hc : c ∈ n.head?) :
    ∃ d, c = CodePoint.ofChar d ∧ gs.head? = some (char d) := by
  rw [List.head?_eq_getElem?] at hc ⊢
  exact h.getElem? hc

theorem Reads.getLast? {c : CodePoint} (h : Reads gs n) (hc : c ∈ n.getLast?) :
    ∃ d, c = CodePoint.ofChar d ∧ gs.getLast? = some (char d) := by
  obtain ⟨cs, rfl, rfl⟩ := h
  rw [List.getLast?_map] at hc
  obtain ⟨d, hd, rfl⟩ := Option.map_eq_some_iff.mp hc
  exact ⟨d, rfl, by rw [List.getLast?_map, hd]; rfl⟩

theorem decodeFrom_chars (cs : List Char) (position : Nat) :
    Utf8.decodeFrom position 0 ((cs.map char).flatMap bytes) = .ok (cs.map CodePoint.ofChar) := by
  induction cs generalizing position with
  | nil => rfl
  | cons c cs ih =>
    obtain ⟨later, hlater⟩ := Utf8.decodeFrom_encodePoint (Utf8.not_isSurrogate_ofChar c) position
      ((cs.map char).flatMap bytes)
    rw [List.map_cons, List.flatMap_cons]
    refine hlater.trans ?_
    rw [ih later]
    rfl

@[simp] theorem text_chars (cs : List Char) : text (cs.map char) = .ok (cs.map CodePoint.ofChar) :=
  decodeFrom_chars cs 0

theorem bytes_char (c : Char) : ∃ b more, bytes (char c) = b :: more ∧
    ¬ (0x80 ≤ b.toNat ∧ b.toNat ≤ 0xBF) := by
  obtain ⟨b, more, heq, hstart, -⟩ := Utf8.first_encodePoint (Utf8.not_isSurrogate_ofChar c)
  exact ⟨b, more, heq, hstart⟩

/-- What the glyphs of a part give to a character that is begun before them, the bytes of the file
give. -/
theorem tail_of_glyphs {owed low high value taken : Nat} {r : Nat × Nat}
    (h : readFrom 0 content = gs ++ post) (hlow : 0x80 ≤ low) (hhigh : high ≤ 0xBF)
    (htail : Utf8.tail owed low high value taken (gs.flatMap bytes) = .ok r) :
    Utf8.tail owed low high value taken content = .ok r := by
  induction owed generalizing content gs low high value taken with
  | zero => exact htail
  | succ owed ih =>
    cases gs with
    | nil => cases htail
    | cons g more =>
      obtain ⟨rest, hmore, ⟨c, rfl⟩ | ⟨b, e, rfl, rfl, -⟩⟩ := readFrom_eq_cons h
      · obtain ⟨b, bs, hbytes, hstart⟩ := bytes_char c
        rw [List.flatMap_cons, hbytes, List.cons_append, Utf8.tail, if_neg (by omega)] at htail
        cases htail
      · rw [List.flatMap_cons, bytes, List.singleton_append, Utf8.tail] at htail
        rw [Utf8.tail]
        split at htail
        · rename_i hrange
          rw [if_pos hrange]
          exact ih hmore.symm (by decide) (by decide) htail
        · cases htail

theorem first_of_glyphs {b : UInt8} {r : Nat × Nat} (h : readFrom 0 content = gs ++ post)
    (hfirst : Utf8.first b (gs.flatMap bytes) = .ok r) : Utf8.first b content = .ok r := by
  rcases Utf8.goesOn_first b with ⟨s, hs⟩ | ⟨owed, low, high, value, hlow, hhigh, htail⟩
  · rw [hs] at hfirst ⊢
    exact hfirst
  · rw [htail] at hfirst ⊢
    exact tail_of_glyphs h hlow hhigh hfirst

theorem reads_of_decodeFrom {position : Nat} (h : readFrom 0 content = gs ++ post)
    (hdecode : Utf8.decodeFrom position 0 (gs.flatMap bytes) = .ok n) : Reads gs n := by
  induction gs generalizing content position n with
  | nil =>
    obtain rfl := Except.ok.inj hdecode
    exact reads_nil
  | cons g more ih =>
    obtain ⟨rest, hmore, ⟨c, rfl⟩ | ⟨b, e, rfl, rfl, hnone⟩⟩ := readFrom_eq_cons h
    · obtain ⟨later, heq⟩ := Utf8.decodeFrom_encodePoint (Utf8.not_isSurrogate_ofChar c) position
        (more.flatMap bytes)
      rw [List.flatMap_cons, bytes, heq] at hdecode
      cases htext : Utf8.decodeFrom later 0 (more.flatMap bytes) with
      | error e =>
        rw [htext] at hdecode
        cases hdecode
      | ok t =>
        rw [htext] at hdecode
        obtain rfl := Except.ok.inj hdecode
        exact (ih hmore.symm htext).cons c
    · rw [List.flatMap_cons, bytes, List.singleton_append, Utf8.decodeFrom] at hdecode
      split at hdecode
      · cases hdecode
      · rename_i value size hsome
        rw [first_of_glyphs hmore.symm hsome] at hnone
        cases hnone

theorem reads_of_text (h : gs <:+: read content) (htext : text gs = .ok n) : Reads gs n := by
  obtain ⟨before, post, h⟩ := h
  have hsuffix : gs ++ post <:+ read content := ⟨before, by rw [← List.append_assoc, h]⟩
  obtain ⟨rest, hrest⟩ := exists_of_suffix (hsuffix.trans (read_suffix content))
  exact reads_of_decodeFrom hrest.symm htext

end LookupGen.Java.Glyph
