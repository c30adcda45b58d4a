import LookupGen.Literal
import Mathlib.Data.List.Basic

/-!
# Reading back what is encoded

The body of a literal that is made from a text decodes to the text, ends at the first quote that
belongs to no escape, and has no line end in it.

The only change is that of `decode` itself: the two halves of a surrogate pair become one code
point.
-/

namespace LookupGen.Literal

theorem replaceEscapes_length (a b : Text) :
    replaceEscapes a.length (a ++ b) = replaceEscapes 0 b := by
  induction a with
  | nil => rfl
  | cons c rest ih => exact ih

theorem replaceEscapes_escape {a b value : Text} (h : escape? (a ++ b) = some (value, a.length)) :
    replaceEscapes 0 ('\\' :: (a ++ b)) = value ++ replaceEscapes 0 b := by
  rw [replaceEscapes, if_pos rfl]
  simp only [h]
  rw [replaceEscapes_length]

theorem replaceEscapes_plain {c : CodePoint} (h : c ≠ '\\') (b : Text) :
    replaceEscapes 0 (c :: b) = c :: replaceEscapes 0 b := by
  rw [replaceEscapes, if_neg h]

def octalDigit (d : Nat) : CodePoint := Fin.ofNat 0x110000 (0x30 + d)

theorem octalDigit?_octalDigit {d : Nat} (h : d < 8) :
    CodePoint.octalDigit? (octalDigit d) = some d := by
  have hval : (octalDigit d).val = 0x30 + d := Nat.mod_eq_of_lt (by omega)
  unfold CodePoint.octalDigit?
  rw [hval, if_pos (by omega)]
  congr 1
  omega

theorem octalDigit_ne {d : Nat} (h : d < 8) {c : CodePoint} (hc : c.octalDigit? = none) :
    octalDigit d ≠ c := by
  rintro rfl
  rw [octalDigit?_octalDigit h] at hc
  cases hc

theorem octalEscape?_three {a b c : Nat} (ha : a < 4) (hb : b < 8) (hc : c < 8) (rest : Text) :
    octalEscape? (octalDigit a :: octalDigit b :: octalDigit c :: rest) =
      some (Fin.ofNat 0x110000 (64 * a + 8 * b + c), 3) := by
  have ha' := octalDigit?_octalDigit (show a < 8 by omega)
  have hb' := octalDigit?_octalDigit hb
  have hc' := octalDigit?_octalDigit hc
  have hsum : 8 * (8 * (8 * 0 + a) + b) + c = 64 * a + 8 * b + c := by omega
  simp only [octalEscape?, ha', if_pos (show a ≤ 3 by omega), List.take_succ_cons, List.take_zero,
    List.takeWhile, hb', hc', Option.isSome_some, Text.digits?, List.foldlM, Option.map_some]
  simp only [bind, Option.bind, pure, Option.map_some, hsum]
  rfl

theorem octalEscape?_self {c : CodePoint} (hc : c.val < 0x100) (rest : Text) :
    octalEscape? (octalDigit (c.val / 64) :: octalDigit (c.val / 8 % 8) ::
      octalDigit (c.val % 8) :: rest) = some (c, 3) := by
  have hsum : 64 * (c.val / 64) + 8 * (c.val / 8 % 8) + c.val % 8 = c.val := by omega
  have hvalue : Fin.ofNat 0x110000 c.val = c := Fin.ext (Nat.mod_eq_of_lt c.isLt)
  rw [octalEscape?_three (by omega) (by omega) (by omega), hsum, hvalue]

/-- How a code point stands in a literal: as an escape for it whatever comes next, or as itself. -/
inductive Encoded (c : CodePoint) : Text → Prop where
  | escaped {x : CodePoint} {ds : Text} :
      (∀ b, escape? (x :: (ds ++ b)) = some ([c], ds.length + 1)) → x ≠ '\n' →
      (∀ d ∈ ds, d ≠ '\\' ∧ d ≠ '"' ∧ d ≠ '\n') → Encoded c ('\\' :: x :: ds)
  | plain : c ≠ '\\' → c ≠ '"' → c ≠ '\n' → Encoded c [c]

theorem Encoded.short {c x : CodePoint} (h : ∀ b, escape? (x :: b) = some ([c], 1))
    (hx : x ≠ '\n') : Encoded c ['\\', x] :=
  .escaped h hx fun _ hd => absurd hd List.not_mem_nil

theorem Encoded.octal {c : CodePoint} (h : c.val < 0x100) :
    Encoded c
      ['\\', octalDigit (c.val / 64), octalDigit (c.val / 8 % 8), octalDigit (c.val % 8)] := by
  have hb : c.val / 8 % 8 < 8 := Nat.mod_lt _ (by omega)
  have hc : c.val % 8 < 8 := Nat.mod_lt _ (by omega)
  refine .escaped ?_ (octalDigit_ne (by omega) (by decide)) ?_
  · intro b
    have hu : octalDigit (c.val / 64) ≠ 'u' := octalDigit_ne (by omega) (by decide)
    simp only [escape?, unicodeEscape?, if_neg hu, List.cons_append, List.nil_append,
      octalEscape?_self h b, List.length_cons, List.length_nil]
  · intro d hd
    obtain ⟨n, hn, rfl⟩ : ∃ n, n < 8 ∧ d = octalDigit n := by
      rcases List.mem_cons.mp hd with rfl | hd
      · exact ⟨_, hb, rfl⟩
      · exact ⟨_, hc, List.mem_singleton.mp hd⟩
    exact ⟨octalDigit_ne hn (by decide), octalDigit_ne hn (by decide), octalDigit_ne hn (by decide)⟩

theorem encodePoint_cases (c : CodePoint) :
    (encodePoint c = [c] ∧ c ≠ '\\' ∧ c ≠ '"' ∧ 0x20 ≤ c.val ∧ c.val ≠ 0x7F) ∨
    (∃ x : CodePoint, encodePoint c = (['\\', x] : Text) ∧ (x, c) ∈ shortEscapes) ∨
    (encodePoint c = (['\\', octalDigit (c.val / 64), octalDigit (c.val / 8 % 8),
      octalDigit (c.val % 8)] : Text) ∧ c.val < 0x100) := by
  unfold encodePoint
  by_cases hbackslash : c = '\\'
  · rw [if_pos hbackslash]
    exact .inr (.inl ⟨'\\', rfl, by rw [hbackslash]; decide⟩)
  rw [if_neg hbackslash]
  by_cases hquote : c = '"'
  · rw [if_pos hquote]
    exact .inr (.inl ⟨'"', rfl, by rw [hquote]; decide⟩)
  rw [if_neg hquote]
  by_cases hnewline : c = '\n'
  · rw [if_pos hnewline]
    exact .inr (.inl ⟨'n', rfl, by rw [hnewline]; decide⟩)
  rw [if_neg hnewline]
  by_cases hreturn : c = '\r'
  · rw [if_pos hreturn]
    exact .inr (.inl ⟨'r', rfl, by rw [hreturn]; decide⟩)
  rw [if_neg hreturn]
  by_cases htab : c = '\t'
  · rw [if_pos htab]
    exact .inr (.inl ⟨'t', rfl, by rw [htab]; decide⟩)
  rw [if_neg htab]
  by_cases hback : c.val = 0x08
  · rw [if_pos hback]
    obtain rfl : c = 0x08 := Fin.ext hback
    exact .inr (.inl ⟨'b', rfl, by decide⟩)
  rw [if_neg hback]
  by_cases hfeed : c.val = 0x0C
  · rw [if_pos hfeed]
    obtain rfl : c = 0x0C := Fin.ext hfeed
    exact .inr (.inl ⟨'f', rfl, by decide⟩)
  rw [if_neg hfeed]
  by_cases hcontrol : c.val < 0x20 ∨ c.val = 0x7F
  · rw [if_pos hcontrol]
    exact .inr (.inr ⟨rfl, by omega⟩)
  · rw [if_neg hcontrol]
    exact .inl ⟨rfl, hbackslash, hquote, by omega, by omega⟩

theorem encoded_encodePoint (c : CodePoint) : Encoded c (encodePoint c) := by
  rcases encodePoint_cases c with ⟨h, hbackslash, hquote, hprintable, -⟩ | ⟨x, h, hx⟩ | ⟨h, hlt⟩
  · rw [h]
    refine .plain hbackslash hquote ?_
    rintro rfl
    exact absurd hprintable (by decide)
  · rw [h]
    simp only [shortEscapes, List.mem_cons, List.not_mem_nil, or_false, Prod.mk.injEq] at hx
    rcases hx with ⟨rfl, rfl⟩ | ⟨rfl, rfl⟩ | ⟨rfl, rfl⟩ | ⟨rfl, rfl⟩ | ⟨rfl, rfl⟩ | ⟨rfl, rfl⟩ |
      ⟨rfl, rfl⟩ | ⟨rfl, rfl⟩ | ⟨rfl, rfl⟩ <;> exact .short (fun _ => rfl) (by decide)
  · rw [h]
    exact .octal hlt

theorem Encoded.replaceEscapes {c : CodePoint} {e : Text} (h : Encoded c e) (b : Text) :
    replaceEscapes 0 (e ++ b) = c :: Literal.replaceEscapes 0 b := by
  cases h with
  | @escaped x ds h _ _ => exact @replaceEscapes_escape (x :: ds) b [c] (h b)
  | plain h _ _ => exact replaceEscapes_plain h b

theorem Encoded.newline_not_mem {c : CodePoint} {e : Text} (h : Encoded c e) :
    CodePoint.ofChar '\n' ∉ e := by
  intro hmem
  cases h with
  | escaped _ hx hds =>
    rcases List.mem_cons.mp hmem with heq | hmem
    · exact absurd heq (by decide)
    rcases List.mem_cons.mp hmem with heq | hmem
    · exact hx heq.symm
    · exact (hds _ hmem).2.2 rfl
  | plain _ _ hnewline => exact hnewline (List.mem_singleton.mp hmem).symm

@[simp] theorem replaceEscapes_encode (t : Text) : replaceEscapes 0 (encode t) = t := by
  induction t with
  | nil => rfl
  | cons c rest ih =>
    change replaceEscapes 0 (encodePoint c ++ encode rest) = c :: rest
    rw [(encoded_encodePoint c).replaceEscapes, ih]

/-- A body reads back as the text that it was made from, with its surrogate pairs joined. -/
@[simp] theorem decode_encode (t : Text) : decode (encode t) = Utf16.joinPairs t := by
  unfold decode
  rw [replaceEscapes_encode]

theorem newline_not_mem_encode (t : Text) : CodePoint.ofChar '\n' ∉ encode t := by
  intro h
  obtain ⟨c, _, hc⟩ := List.mem_flatMap.mp h
  exact (encoded_encodePoint c).newline_not_mem hc

/-- The body of a literal up to its closing quote, and what comes after the quote. `taken` says that
a backslash takes the first code point along. -/
def body? (taken : Bool) : Text → Option (Text × Text)
  | [] => none
  | c :: rest =>
    if c = '"' ∧ taken = false then some ([], rest)
    else (body? (decide (c = '\\') && !taken) rest).map fun (body, after) => (c :: body, after)

theorem body?_taken (c : CodePoint) (b : Text) :
    body? true (c :: b) = (body? false b).map fun (body, after) => (c :: body, after) := by
  simp [body?]

theorem body?_plain {c : CodePoint} (hquote : c ≠ '"') (hbackslash : c ≠ '\\') (b : Text) :
    body? false (c :: b) = (body? false b).map fun (body, after) => (c :: body, after) := by
  simp [body?, hquote, hbackslash]

theorem body?_plains {ds : Text} (h : ∀ d ∈ ds, d ≠ '"' ∧ d ≠ '\\') (b : Text) :
    body? false (ds ++ b) = (body? false b).map fun (body, after) => (ds ++ body, after) := by
  induction ds with
  | nil => simp
  | cons d rest ih =>
    obtain ⟨hquote, hbackslash⟩ := h d List.mem_cons_self
    rw [List.cons_append, body?_plain hquote hbackslash,
      ih fun e he => h e (List.mem_cons_of_mem d he), Option.map_map]
    rfl

theorem Encoded.body? {c : CodePoint} {e : Text} (h : Encoded c e) (b : Text) :
    body? false (e ++ b) =
      (Literal.body? false b).map fun (body, after) => (e ++ body, after) := by
  cases h with
  | @escaped x ds _ _ hds =>
    change (Literal.body? true (x :: (ds ++ b))).map _ = _
    rw [body?_taken, body?_plains (fun d hd => ⟨(hds d hd).2.1, (hds d hd).1⟩) b, Option.map_map,
      Option.map_map]
    rfl
  | plain hbackslash hquote _ => exact body?_plain hquote hbackslash b

theorem body?_encode (t after : Text) :
    body? false (encode t ++ CodePoint.ofChar '"' :: after) = some (encode t, after) := by
  induction t with
  | nil => rfl
  | cons c rest ih =>
    change body? false ((encodePoint c ++ encode rest) ++ _) =
      some (encodePoint c ++ encode rest, after)
    rw [List.append_assoc, (encoded_encodePoint c).body?, ih]
    rfl

end LookupGen.Literal
