import LookupGen.Program.Evaluate
import LookupGen.Proofs.Literal.Passes
import Mathlib.Data.List.DropRight

/-!
# Encoded bodies

The body that a text is encoded as, read by the rules of the language. It is made of one piece for
each code point: the code point itself, or one escape sequence. So the reader in one pass and the
two passes of the language read the same text, which is the encoded one with its surrogate pairs
joined.

Main statement: all of this for every text, unpaired surrogates included.
-/

namespace LookupGen.Literal

def IsPrintable (c : CodePoint) : Prop := 0x20 ≤ c.val ∧ c.val ≠ 0x7F

/-- How a code point stands in a body: as itself, or as an escape sequence whatever comes next. -/
inductive Spells (c : CodePoint) : Text → Prop where
  | plain : c ≠ '"' → c ≠ '\\' → IsPrintable c → Spells c [c]
  | escape {x : CodePoint} {ds : Text} :
      x ≠ 'u' → (∀ d ∈ ds, IsOctal d) →
      (∀ b, sequence? .string (x :: (ds ++ b)) = some ([c], ds.length + 1)) →
      Spells c ('\\' :: x :: ds)

theorem isOctal_octalDigit {d : Nat} (h : d < 8) : IsOctal (octalDigit d) := by
  rw [IsOctal, octalDigit?_octalDigit h]
  exact Option.some_ne_none d

theorem IsOctal.isPrintable {c : CodePoint} (h : IsOctal c) : IsPrintable c := by
  have hrange := isOctal_iff.mp h
  unfold IsPrintable
  omega

theorem IsOctal.ne_letter {c : CodePoint} (h : IsOctal c) : c ≠ 'u' := by
  rintro rfl
  exact h rfl

theorem octal_of_mem {c : CodePoint} (hc : c.val < 0x100) :
    ∀ d ∈ [octalDigit (c.val / 64), octalDigit (c.val / 8 % 8), octalDigit (c.val % 8)],
      IsOctal d := by
  intro d hd
  simp only [List.mem_cons, List.not_mem_nil, or_false] at hd
  rcases hd with rfl | rfl | rfl
  · exact isOctal_octalDigit (by omega)
  · exact isOctal_octalDigit (by omega)
  · exact isOctal_octalDigit (by omega)

theorem letter_of_mem {x c : CodePoint} (h : (x, c) ∈ shortEscapes) :
    IsPrintable x ∧ x ≠ 'u' ∧ x.octalDigit? = none := by
  have hletters : (shortEscapes.all fun p => decide ((0x20 ≤ p.1.val ∧ p.1.val ≠ 0x7F) ∧
      p.1 ≠ 'u' ∧ p.1.octalDigit? = none)) = true := by decide
  have hletter := of_decide_eq_true (List.all_eq_true.mp hletters _ h)
  exact hletter

theorem Spells.octal {c : CodePoint} (hc : c.val < 0x100) :
    Spells c
      ['\\', octalDigit (c.val / 64), octalDigit (c.val / 8 % 8), octalDigit (c.val % 8)] := by
  have hdigits := octal_of_mem hc
  refine .escape (hdigits _ List.mem_cons_self).ne_letter
    (fun d hd => hdigits d (List.mem_cons_of_mem _ hd)) fun b => ?_
  have hescape := octalEscape?_self hc b
  rw [octalEscape?_eq] at hescape
  unfold sequence?
  rw [List.cons_append, List.singleton_append, hescape]
  rfl

theorem spells_encodePoint (c : CodePoint) : Spells c (encodePoint c) := by
  rcases encodePoint_cases c with ⟨h, hbackslash, hquote, hprintable⟩ | ⟨x, h, hx⟩ | ⟨h, hc⟩
  · rw [h]
    exact .plain hquote hbackslash hprintable
  · rw [h]
    obtain ⟨-, hu, hoctal⟩ := letter_of_mem hx
    refine .escape hu (fun d hd => absurd hd List.not_mem_nil) fun b => ?_
    rw [List.nil_append, sequence?_letter hoctal, shortSequence?_iff.mpr hx]
    rfl
  · rw [h]
    exact .octal hc

theorem encode_cons (c : CodePoint) (t : Text) : encode (c :: t) = encodePoint c ++ encode t := rfl

theorem isPrintable_encodePoint (c : CodePoint) : ∀ x ∈ encodePoint c, IsPrintable x := by
  have hbackslash : IsPrintable '\\' := ⟨by decide, by decide⟩
  rcases encodePoint_cases c with ⟨h, -, -, hprintable⟩ | ⟨y, h, hy⟩ | ⟨h, hc⟩
  · rw [h]
    exact List.forall_mem_singleton.mpr hprintable
  · rw [h]
    exact List.forall_mem_cons.mpr ⟨hbackslash, List.forall_mem_singleton.mpr (letter_of_mem hy).1⟩
  · rw [h]
    refine List.forall_mem_cons.mpr ⟨hbackslash, fun x hx => ?_⟩
    exact (octal_of_mem hc x hx).isPrintable

theorem isPrintable_encode (t : Text) : ∀ x ∈ encode t, IsPrintable x := by
  intro x hx
  obtain ⟨c, -, hx⟩ := List.mem_flatMap.mp hx
  exact isPrintable_encodePoint c x hx

def isBackslash (c : CodePoint) : Bool := c = '\\'

/-- Whether what comes next is escaped, after the code points of a text. -/
def escapes (escaped : Bool) (a : Text) : Bool :=
  a.foldl (fun escaped c => isBackslash c && !escaped) escaped

@[simp] theorem escapes_append (escaped : Bool) (a b : Text) :
    escapes escaped (a ++ b) = escapes (escapes escaped a) b := List.foldl_append

@[simp] theorem escapes_cons (escaped : Bool) (c : CodePoint) (a : Text) :
    escapes escaped (c :: a) = escapes (isBackslash c && !escaped) a := rfl

theorem escapes_digits {ds : Text} (h : ∀ d ∈ ds, IsOctal d) : escapes false ds = false := by
  induction ds with
  | nil => rfl
  | cons d ds ih =>
    rw [escapes_cons, isBackslash, decide_eq_false (h d List.mem_cons_self).ne_backslash]
    exact ih fun e he => h e (List.mem_cons_of_mem d he)

theorem escapes_eq_false_iff (a : Text) :
    escapes false a = false ↔ Even (a.rtakeWhile isBackslash).length := by
  induction a using List.reverseRecOn with
  | nil => exact iff_of_true rfl Even.zero
  | append_singleton a c ih =>
    rw [escapes_append, escapes_cons, List.rtakeWhile_concat]
    cases isBackslash c with
    | false => exact iff_of_true rfl Even.zero
    | true =>
      rw [if_pos rfl, List.length_append, List.length_singleton, Nat.even_add_one, ← ih]
      cases escapes false a with
      | false => exact iff_of_false (by decide) (by decide)
      | true => exact iff_of_true rfl (by decide)

theorem Spells.escapes_eq_false {c : CodePoint} {e : Text} (h : Spells c e) :
    escapes false e = false := by
  cases h with
  | plain _ hbackslash =>
    rw [escapes_cons, isBackslash, decide_eq_false hbackslash]
    rfl
  | @escape x ds _ hds =>
    have hcons : escapes false ('\\' :: x :: ds) = escapes false ds := by
      rw [escapes_cons, escapes_cons]
      cases isBackslash x with
      | false => rfl
      | true => rfl
    rw [hcons]
    exact escapes_digits hds

/-- In a piece the letter that could begin a Unicode escape stands only by itself. -/
theorem Spells.letter_not_mem_tail {c : CodePoint} {e : Text} (h : Spells c e) :
    CodePoint.ofChar 'u' ∉ e.tail := by
  cases h with
  | plain => exact List.not_mem_nil
  | escape hu hds =>
    intro hmem
    rcases List.mem_cons.mp hmem with heq | hmem
    · exact hu heq.symm
    · exact (hds _ hmem).ne_letter rfl

theorem escapes_encode {t a b : Text} (h : encode t = a ++ CodePoint.ofChar 'u' :: b) :
    escapes false a = false := by
  induction t generalizing a with
  | nil => exact absurd h.symm (List.append_ne_nil_of_right_ne_nil a (List.cons_ne_nil _ b))
  | cons c t ih =>
    have hpiece := spells_encodePoint c
    rcases List.append_eq_append_iff.mp h with ⟨a', rfl, hrest⟩ | ⟨r, he, hrest⟩
    · rw [escapes_append, hpiece.escapes_eq_false]
      exact ih hrest
    · cases r with
      | nil =>
        rw [List.append_nil] at he
        rw [← he]
        exact hpiece.escapes_eq_false
      | cons x r =>
        obtain ⟨rfl, -⟩ := List.cons.inj hrest
        have htail := hpiece.letter_not_mem_tail
        rw [he] at htail
        cases a with
        | nil => rfl
        | cons y a => exact absurd (List.mem_append_right a List.mem_cons_self) htail

theorem translate_digits {ds : Text} (h : ∀ d ∈ ds, IsOctal d) (b : Text) :
    translate .start (ds ++ b) = (translate .start b).map (ds.map (·, false) ++ ·) := by
  induction ds with
  | nil => exact Option.map_id'.symm
  | cons d ds ih =>
    rw [List.cons_append, translate, if_neg (h d List.mem_cons_self).ne_backslash,
      ih fun e he => h e (List.mem_cons_of_mem d he), Option.map_map]
    rfl

theorem Spells.translate_append {c : CodePoint} {e : Text} (h : Spells c e) (b : Text) :
    translate .start (e ++ b) = (translate .start b).map (e.map (·, false) ++ ·) := by
  cases h with
  | plain _ hbackslash =>
    rw [List.singleton_append, translate, if_neg hbackslash]
    rfl
  | escape hu hds =>
    rw [List.cons_append, List.cons_append, translate, if_pos rfl, translate, if_neg hu,
      translate_digits hds, Option.map_map]
    rfl

theorem Spells.interpret_append {c : CodePoint} {e : Text} (h : Spells c e) (b : Text) :
    interpret .string 0 (e ++ b) = (interpret .string 0 b).map (c :: ·) := by
  cases h with
  | plain hquote hbackslash hprintable =>
    have hcloses : closes .string c = false := by
      simp only [closes, Bool.or_eq_false_iff, decide_eq_false_iff_not]
      refine ⟨⟨hquote, ?_⟩, ?_⟩
      · rintro rfl
        exact absurd hprintable.1 (by decide)
      · rintro rfl
        exact absurd hprintable.1 (by decide)
    rw [List.singleton_append, interpret, if_neg hbackslash, hcloses]
    rfl
  | @escape x ds _ _ hsequence =>
    have hskip : interpret .string (ds.length + 1) (x :: (ds ++ b)) = interpret .string 0 b := by
      rw [interpret_skip, List.drop_succ_cons, List.drop_left]
    rw [List.cons_append, List.cons_append, interpret, if_pos rfl, hsequence, Option.bind_some]
    simp only
    rw [hskip]
    rfl

@[simp] theorem translate_encode (t : Text) :
    translate .start (encode t) = some ((encode t).map (·, false)) := by
  induction t with
  | nil => rfl
  | cons c t ih =>
    rw [encode_cons, (spells_encodePoint c).translate_append, ih, List.map_append]
    rfl

@[simp] theorem interpret_encode (t : Text) : interpret .string 0 (encode t) = some t := by
  induction t with
  | nil => rfl
  | cons c t ih =>
    rw [encode_cons, (spells_encodePoint c).interpret_append, ih]
    rfl

@[simp] theorem bodyUnits?_encode (t : Text) : bodyUnits? (encode t) = some (Utf16.units t) := by
  have hpoints : points ((encode t).map (·, false)) = encode t := by
    rw [points, List.map_map]
    exact List.map_id' _
  rw [bodyUnits?, translate_encode, Option.bind_some, hpoints, interpret_encode]
  rfl

def inQuotes (body : Text) : Text := '"' :: (body ++ ("\"" : Text))

@[simp] theorem unquote_inQuotes (body : Text) : unquote 1 (inQuotes body) = body := by
  have hlength : (body ++ ("\"" : Text)).length = body.length + 1 := List.length_append
  rw [unquote, inQuotes, List.drop_succ_cons, List.drop_zero, List.length_cons, hlength,
    Nat.mul_one, Nat.add_sub_add_right, Nat.add_sub_cancel, List.take_left]

theorem Spells.exists_cons {c : CodePoint} {e : Text} (h : Spells c e) :
    ∃ x e', e = x :: e' ∧ x ≠ '"' := by
  cases h with
  | plain hquote => exact ⟨c, [], rfl, hquote⟩
  | @escape x ds => exact ⟨'\\', x :: ds, rfl, by decide⟩

theorem startsWith_inQuotes_encode (t : Text) :
    Text.startsWith (inQuotes (encode t)) "\"\"\"" = false := by
  cases t with
  | nil => rfl
  | cons c t =>
    obtain ⟨x, e, he, hx⟩ := (spells_encodePoint c).exists_cons
    have hne : (CodePoint.ofChar '"' == x) = false := beq_false_of_ne (Ne.symm hx)
    have hprefix : ∀ b, Text.startsWith ('"' :: x :: b) "\"\"\"" =
        (CodePoint.ofChar '"' == x && List.isPrefixOf ("\"" : Text) b) := fun _ => rfl
    rw [inQuotes, encode_cons, he, List.cons_append, List.cons_append, hprefix, hne, Bool.false_and]

/-- The body that a text is encoded as is written with escapes, has no Unicode escape and is read as
the text, by the reader in one pass and in two passes, alone and as a literal. -/
theorem encode_faithful (t : Text) :
    (∃ pieces, encode t = pieces.flatten ∧ List.Forall₂ Spells t pieces) ∧
    (∀ x ∈ encode t, IsPrintable x) ∧
    (∀ a b, encode t = a ++ CodePoint.ofChar 'u' :: b → Even (a.rtakeWhile isBackslash).length) ∧
    decode (encode t) = Utf16.joinPairs t ∧
    (bodyUnits? (encode t)).map Utf16.ofUnits = some (Utf16.joinPairs t) ∧
    Text.startsWith (inQuotes (encode t)) "\"\"\"" = false ∧
    ∀ (p : Program) (site : Site),
      p.constantAt site (.string (.ok (inQuotes (encode t)))) =
        pure (some (.string (Utf16.joinPairs t))) := by
  refine ⟨⟨t.map encodePoint, List.flatMap_def, ?_⟩, isPrintable_encode t, ?_, decode_encode t, ?_,
    startsWith_inQuotes_encode t, ?_⟩
  · exact List.forall₂_map_right_iff.mpr (List.forall₂_same.mpr fun c _ => spells_encodePoint c)
  · exact fun a b h => (escapes_eq_false_iff a).mp (escapes_encode h)
  · rw [bodyUnits?_encode, Option.map_some, Utf16.ofUnits_units]
  · intro p site
    have hconstant : stringConstant (inQuotes (encode t)) = .string (Utf16.joinPairs t) := by
      rw [stringConstant, startsWith_inQuotes_encode, if_neg Bool.false_ne_true, unquote_inQuotes,
        decode_encode]
    rw [← hconstant]
    rfl

end LookupGen.Literal
