import LookupGen.Proofs.Name
import LookupGen.Text.Encoding

/-!
# Surrogates in texts

A text has a UTF-8 form just where there is no surrogate in it. There is none in a fixed wording, in
a number, in a quoted text or in a valid name.
-/

namespace LookupGen

namespace CodePoint

theorem isSurrogate_iff {c : CodePoint} :
    c.isSurrogate = true ↔ 0xD800 ≤ c.val ∧ c.val ≤ 0xDFFF := by
  simp [isSurrogate]

@[simp] theorem isSurrogate_ofChar (c : Char) : (ofChar c).isSurrogate = false := by
  have hvalid := c.valid
  simp only [UInt32.isValidChar, Nat.isValidChar] at hvalid
  have hval : (ofChar c).val = c.val.toNat := rfl
  rw [Bool.eq_false_iff, Ne, isSurrogate_iff, hval]
  omega

end CodePoint

namespace Text

def hasSurrogate (t : Text) : Bool := t.any (·.isSurrogate)

@[simp] theorem hasSurrogate_nil : hasSurrogate [] = false := rfl

@[simp] theorem hasSurrogate_cons (c : CodePoint) (t : Text) :
    hasSurrogate (c :: t) = (c.isSurrogate || hasSurrogate t) := rfl

@[simp] theorem hasSurrogate_append (a b : Text) :
    hasSurrogate (a ++ b) = (hasSurrogate a || hasSurrogate b) := List.any_append

theorem hasSurrogate_eq_false_iff {t : Text} :
    hasSurrogate t = false ↔ ∀ c ∈ t, c.isSurrogate = false := by
  simp [hasSurrogate]

@[simp] theorem hasSurrogate_join (ts : List Text) :
    hasSurrogate (join ts) = ts.any hasSurrogate := by
  induction ts with
  | nil => rfl
  | cons t rest ih =>
    rw [List.any_cons, ← ih]
    exact hasSurrogate_append t rest.flatten

@[simp] theorem hasSurrogate_ofString (s : String) : hasSurrogate (ofString s) = false := by
  apply hasSurrogate_eq_false_iff.mpr
  intro c hc
  obtain ⟨d, -, rfl⟩ := List.mem_map.mp hc
  exact CodePoint.isSurrogate_ofChar d

@[simp] theorem hasSurrogate_ofNat (n : Nat) : hasSurrogate (ofNat n) = false :=
  hasSurrogate_ofString _

@[simp] theorem hasSurrogate_flatMap {α : Type} (f : α → Text) (as : List α) :
    hasSurrogate (as.flatMap f) = as.any fun a => hasSurrogate (f a) := List.any_flatMap

theorem isSurrogate_hexDigit {n : Nat} (h : n < 16) : (hexDigit n).isSurrogate = false := by
  rw [Bool.eq_false_iff, Ne, CodePoint.isSurrogate_iff]
  unfold hexDigit
  split
  · have hval : (Fin.ofNat 0x110000 (0x30 + n)).val = 0x30 + n := Nat.mod_eq_of_lt (by omega)
    omega
  · have hval : (Fin.ofNat 0x110000 (0x57 + n)).val = 0x57 + n := Nat.mod_eq_of_lt (by omega)
    omega

@[simp] theorem hasSurrogate_hex (width n : Nat) : hasSurrogate (hex width n) = false := by
  induction width generalizing n with
  | zero => rfl
  | succ width ih => simp [hex, ih, isSurrogate_hexDigit (Nat.mod_lt n (by decide : 16 > 0))]

@[simp] theorem hasSurrogate_numberedEscape (c : CodePoint) :
    hasSurrogate (numberedEscape c) = false := by
  unfold numberedEscape
  split
  · simp
  · split
    · simp
    · simp

theorem not_isPrintable_of_isSurrogate {c : CodePoint} (h : c.isSurrogate = true) :
    Unicode.isPrintable c = false := by
  have hrange : (0xD7FC, 0xF8FF) ∈ Unicode.unprintableTable := by decide +kernel
  rw [CodePoint.isSurrogate_iff] at h
  have hmem : Unicode.unprintableTable.contains c = true :=
    (Unicode.Ranges.contains_iff _ c).mpr ⟨_, hrange, by omega, by omega⟩
  simp [Unicode.isPrintable, hmem]

theorem hasSurrogate_quotedPoint {quote c : CodePoint} (h : quote.isSurrogate = false) :
    hasSurrogate (quotedPoint quote c) = false := by
  unfold quotedPoint
  split
  · rename_i hc
    have hbackslash : CodePoint.isSurrogate '\\' = false := CodePoint.isSurrogate_ofChar '\\'
    rcases hc with rfl | rfl
    · simp [h, hbackslash]
    · simp [hbackslash]
  · split
    · simp
    · split
      · simp
      · split
        · simp
        · split
          · rename_i hprintable
            have hc : c.isSurrogate = false := by
              rw [Bool.eq_false_iff]
              intro hc
              rw [not_isPrintable_of_isSurrogate hc] at hprintable
              cases hprintable
            simp [hc]
          · simp

@[simp] theorem hasSurrogate_quoted (t : Text) : hasSurrogate (quoted t) = false := by
  have hquote : (quoteFor t).isSurrogate = false := by
    unfold quoteFor
    split
    · exact CodePoint.isSurrogate_ofChar '"'
    · exact CodePoint.isSurrogate_ofChar '\''
  have hbody : hasSurrogate (t.flatMap (quotedPoint (quoteFor t))) = false := by
    rw [hasSurrogate_flatMap]
    apply List.any_eq_false.mpr
    intro c _
    simp [hasSurrogate_quotedPoint hquote]
  simp [quoted, hquote, hbody]

end Text

namespace Utf8

@[simp] theorem isSome_firstSurrogates? (position : Nat) (t : Text) :
    (firstSurrogates? position t).isSome = t.hasSurrogate := by
  induction t generalizing position with
  | nil => rfl
  | cons c rest ih =>
    rw [firstSurrogates?, Text.hasSurrogate_cons]
    cases hc : c.isSurrogate with
    | true => rfl
    | false => simpa using ih (position + 1)

theorem encode_of_hasSurrogate {t : Text} (h : t.hasSurrogate = true) :
    ∃ e, encode t = .error e := by
  rw [← isSome_firstSurrogates? 0] at h
  obtain ⟨e, he⟩ := Option.isSome_iff_exists.mp h
  exact ⟨e, by rw [encode, he]⟩

theorem encode_of_not_hasSurrogate {t : Text} (h : t.hasSurrogate = false) :
    encode t = .ok (t.flatMap encodePoint) := by
  rw [← isSome_firstSurrogates? 0, Option.isSome_eq_false_iff, Option.isNone_iff_eq_none] at h
  rw [encode, h]

theorem encode_isOk_iff {t : Text} : (∃ bytes, encode t = .ok bytes) ↔ t.hasSurrogate = false := by
  constructor
  · rintro ⟨bytes, h⟩
    rw [Bool.eq_false_iff]
    intro hsurrogate
    obtain ⟨e, he⟩ := encode_of_hasSurrogate hsurrogate
    rw [he] at h
    cases h
  · exact fun h => ⟨_, encode_of_not_hasSurrogate h⟩

end Utf8

namespace Name

theorem not_isSurrogate_of_table {rs : Unicode.Ranges}
    (hrs : ∀ r ∈ rs, r.2 < 0xD800 ∨ 0xDFFF < r.1) {ascii : Bool} {c : CodePoint}
    (h : (decide (c = '$') || if c.val < 0x80 then ascii else rs.contains c) = true) :
    c.isSurrogate = false := by
  rw [Bool.eq_false_iff, Ne, CodePoint.isSurrogate_iff]
  intro hc
  rcases Bool.or_eq_true_iff.mp h with hdollar | htable
  · have hval : c.val = 0x24 := congrArg Fin.val (of_decide_eq_true hdollar)
    omega
  · rw [if_neg (by omega), Unicode.Ranges.contains_iff] at htable
    obtain ⟨r, hr, hfirst, hlast⟩ := htable
    have := hrs r hr
    omega

theorem not_isSurrogate_of_isStart {c : CodePoint} (h : isStart c = true) :
    c.isSurrogate = false :=
  not_isSurrogate_of_table (by decide +kernel : ∀ r ∈ Unicode.identifierStartTable, _) h

theorem not_isSurrogate_of_isPart {c : CodePoint} (h : isPart c = true) : c.isSurrogate = false :=
  not_isSurrogate_of_table (by decide +kernel : ∀ r ∈ Unicode.identifierPartTable, _) h

theorem not_hasSurrogate_of_isValid {n : Name} (h : isValid n = true) : n.hasSurrogate = false := by
  apply Text.hasSurrogate_eq_false_iff.mpr
  intro c hc
  rcases isStart_or_isPart_of_isValid h hc with rfl | hstart | hpart
  · exact CodePoint.isSurrogate_ofChar '.'
  · exact not_isSurrogate_of_isStart hstart
  · exact not_isSurrogate_of_isPart hpart

end Name

end LookupGen
