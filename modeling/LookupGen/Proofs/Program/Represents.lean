import LookupGen.Proofs.Program.Typed

/-!
# Constants that represent typed values

A constant represents at most one typed value. Literals and operators give constants that represent
what they give as typed values.
-/

namespace LookupGen

open Java (UnaryOp)

inductive Constant.Represents : Constant → TypedValue → Prop where
  | string (t : Text) : Represents (.string t) (.string (Utf16.units t))
  | boolean (b : Bool) : Represents (.boolean b) (.boolean b)
  | character {c : CodePoint} :
      c.val < 0x10000 → Represents (.character [c]) (.char (BitVec.ofNat 16 c.val))
  | int (n : BitVec 32) : Represents (.int n.toInt) (.int n)
  | long (n : BitVec 64) : Represents (.long n.toInt) (.long n)

namespace Constant

variable {a b : Constant} {v w x : TypedValue}

theorem Represents.unique (hv : a.Represents v) (hw : a.Represents w) : v = w := by
  generalize ha : a = a' at hw
  cases hv <;> cases hw <;> simp at ha
  · rw [ha]
  · rw [ha]
  · rw [ha]
  · rw [BitVec.toInt_inj.mp ha]
  · rw [BitVec.toInt_inj.mp ha]

theorem Represents.units_toText (h : a.Represents v) : Utf16.units a.toText = v.text := by
  cases h with
  | string t => rfl
  | boolean b => rfl
  | character hc =>
    rw [toText, Utf16.units_cons, Utf16.pointUnits_of_lt hc]
    rfl
  | int n => rfl
  | long n => rfl

theorem Represents.isString_eq (h : a.Represents v) : a.isString = decide (v.shape = .text) := by
  cases h <;> rfl

theorem toInt_setWidth_unit {w n : Nat} (hw : 16 < w) (hn : n < 0x10000) :
    ((BitVec.ofNat 16 n).setWidth w).toInt = n := by
  have hpow : 2 ^ 17 ≤ 2 ^ w := Nat.pow_le_pow_right (by omega) hw
  have hval : ((BitVec.ofNat 16 n).setWidth w).toNat = n := by
    rw [BitVec.toNat_setWidth, BitVec.toNat_ofNat, Nat.mod_eq_of_lt (by omega),
      Nat.mod_eq_of_lt (by omega)]
  rw [BitVec.toInt_eq_toNat_of_lt (by omega), hval]

theorem Represents.number_int (h : a.Represents v) {n : BitVec 32} (hn : v.int? = some n) :
    a.number? = .ok (some (false, n.toInt)) := by
  cases h with
  | string | boolean | long => cases hn
  | @character c hc =>
    obtain rfl := Option.some.inj hn
    rw [number?, toInt_setWidth_unit (by omega) hc]
  | int m =>
    obtain rfl := Option.some.inj hn
    rfl

theorem Represents.number_long (h : a.Represents v) {n : BitVec 64} (hn : v.long? = some n) :
    a.number? = .ok (some (v.int?.isNone, n.toInt)) := by
  cases h with
  | string | boolean => cases hn
  | @character c hc =>
    obtain rfl := Option.some.inj hn
    rw [number?, toInt_setWidth_unit (by omega) hc]
    rfl
  | int m =>
    obtain rfl := Option.some.inj hn
    rw [BitVec.toInt_signExtend_of_le (by omega)]
    rfl
  | long m =>
    obtain rfl := Option.some.inj hn
    rfl

theorem represents_ofInt {n : Int} {m : BitVec 32} (h : m.toInt = n.bmod (2 ^ 32)) :
    (ofNumber false n).Represents (.int m) := by
  have hwrap : ofNumber false n = .int m.toInt := congrArg Constant.int h.symm
  rw [hwrap]
  exact .int m

theorem represents_ofLong {n : Int} {m : BitVec 64} (h : m.toInt = n.bmod (2 ^ 64)) :
    (ofNumber true n).Represents (.long m) := by
  have hwrap : ofNumber true n = .long m.toInt := congrArg Constant.long h.symm
  rw [hwrap]
  exact .long m

theorem isNumeric_of_number? {n : Bool × Int} (h : a.number? = .ok (some n)) :
    a.isNumeric = true ∧ a.isString = false := by
  cases a with
  | string | boolean => cases h
  | character | int | long => exact ⟨rfl, rfl⟩

theorem plus_of_number? {la lb : Bool} {m n : Int} (ha : a.number? = .ok (some (la, m)))
    (hb : b.number? = .ok (some (lb, n))) :
    a.plus b = .ok (some (ofNumber (la || lb) (m + n))) := by
  obtain ⟨hna, hsa⟩ := isNumeric_of_number? ha
  obtain ⟨hnb, hsb⟩ := isNumeric_of_number? hb
  simp only [plus, hsa, hsb, hna, hnb, ha, hb]
  rfl

theorem mapNumber_of_number? {l : Bool} {n : Int} (f : Int → Int)
    (h : a.number? = .ok (some (l, n))) : a.mapNumber f = .ok (some (ofNumber l (f n))) := by
  simp only [mapNumber, h]
  rfl

theorem Represents.sum (ha : a.Represents v) (hb : b.Represents w) (h : v.sum w = some x) :
    ∃ c, a.plus b = .ok (some c) ∧ c.Represents x := by
  unfold TypedValue.sum at h
  split at h
  · rename_i m n hm hn
    obtain rfl := Option.some.inj h
    exact ⟨_, plus_of_number? (ha.number_int hm) (hb.number_int hn),
      represents_ofInt (BitVec.toInt_add m n)⟩
  · rename_i hnot
    split at h
    · rename_i m n hm hn
      obtain rfl := Option.some.inj h
      have hlong : (v.int?.isNone || w.int?.isNone) = true := by
        cases hv : v.int? with
        | none => rfl
        | some i =>
          cases hw : w.int? with
          | none => rfl
          | some j => exact absurd hw (hnot i j hv)
      have hplus := plus_of_number? (ha.number_long hm) (hb.number_long hn)
      rw [hlong] at hplus
      exact ⟨_, hplus, represents_ofLong (BitVec.toInt_add m n)⟩
    · cases h

theorem Represents.plus (ha : a.Represents v) (hb : b.Represents w) (h : v.plus w = some x) :
    ∃ c, a.plus b = .ok (some c) ∧ c.Represents x := by
  by_cases hstring : (a.isString || b.isString) = true
  · refine ⟨.string (a.toText ++ b.toText), by rw [Constant.plus, if_pos hstring], ?_⟩
    have hunits : Utf16.units (a.toText ++ b.toText) = v.text ++ w.text := by
      rw [Utf16.units_append, ha.units_toText, hb.units_toText]
    have hx : x = .string (v.text ++ w.text) := by
      rw [ha.isString_eq, hb.isString_eq] at hstring
      cases v <;> cases w <;> first | exact (Option.some.inj h).symm | cases hstring
    rw [hx, ← hunits]
    exact .string _
  · have hsum : v.plus w = v.sum w := by
      rw [ha.isString_eq, hb.isString_eq] at hstring
      cases v <;> cases w <;> first | rfl | exact absurd rfl hstring
    exact ha.sum hb (hsum.symm.trans h)

theorem Represents.mapNumber {f : (w : Nat) → BitVec w → BitVec w} {g : Int → Int}
    (hf : ∀ (w : Nat) (n : BitVec w), (f w n).toInt = (g n.toInt).bmod (2 ^ w))
    (ha : a.Represents v) (h : v.mapNumber f = some x) :
    ∃ c, a.mapNumber g = .ok (some c) ∧ c.Represents x := by
  unfold TypedValue.mapNumber at h
  split at h
  · rename_i n hn
    obtain rfl := Option.some.inj h
    exact ⟨_, mapNumber_of_number? g (ha.number_int hn), represents_ofInt (hf 32 n)⟩
  · rename_i hnone
    obtain ⟨n, hn, rfl⟩ := Option.map_eq_some_iff.mp h
    have hnumber := ha.number_long hn
    rw [hnone] at hnumber
    exact ⟨_, mapNumber_of_number? g hnumber, represents_ofLong (hf 64 n)⟩

theorem toInt_not_eq (w : Nat) (n : BitVec w) : (~~~n).toInt = (-n.toInt - 1).bmod (2 ^ w) := by
  rw [BitVec.toInt_not, BitVec.toInt_eq_toNat_cond]
  split
  · have hshift : (2 ^ w - 1 - n.toNat : Int) = -n.toNat - 1 + (2 ^ w : Nat) := by
      push_cast
      omega
    rw [hshift, Int.add_bmod_right]
  · congr 1
    push_cast
    omega

theorem Represents.unary {op : UnaryOp} (ha : a.Represents v) (h : v.unary op = some x) :
    ∃ c, applyUnary op a = .ok (some c) ∧ c.Represents x := by
  cases op with
  | plus => exact ha.mapNumber (fun _ n => (BitVec.toInt_bmod_cancel n).symm) h
  | minus => exact ha.mapNumber (fun _ _ => BitVec.toInt_neg) h
  | complement => exact ha.mapNumber toInt_not_eq h
  | negation =>
    cases ha with
    | boolean b =>
      obtain rfl := Option.some.inj h
      exact ⟨_, rfl, .boolean _⟩
    | string | character | int | long => cases h

theorem represents_stringConstant {t : Text} {u : List (BitVec 16)}
    (h : Literal.stringLiteral? t = some u) (ht : Literal.plainString t = true) :
    (stringConstant t).Represents (.string u) := by
  unfold Literal.stringLiteral? at h
  unfold Literal.plainString at ht
  unfold stringConstant
  split at h
  · rename_i hblock
    rw [if_pos hblock] at ht ⊢
    obtain ⟨content, hcontent, h⟩ := Option.bind_eq_some_iff.mp h
    obtain ⟨ms, hms, hcontent⟩ := Option.bind_eq_some_iff.mp hcontent
    obtain ⟨out, hout, rfl⟩ := Option.map_eq_some_iff.mp h
    rw [hms, Option.all_some] at ht
    rw [Literal.decodeBlock_eq hms hcontent hout ht, ← Utf16.units_joinPairs]
    exact .string _
  · rename_i hblock
    rw [if_neg hblock] at ht ⊢
    obtain ⟨ms, hms, h⟩ := Option.bind_eq_some_iff.mp h
    obtain ⟨out, hout, rfl⟩ := Option.map_eq_some_iff.mp h
    rw [hms, Option.all_some] at ht
    have hreplaced :=
      (Literal.translated_of_translate hms).replaceEscapes_eq (by simp) hout ht
    rw [Literal.decode, hreplaced, ← Utf16.units_joinPairs]
    exact .string _

theorem represents_characterConstant {t : Text} {u : BitVec 16}
    (h : Literal.characterLiteral? t = some u) (ht : Literal.plainCharacter t = true) :
    (characterConstant t).Represents (.char u) := by
  obtain ⟨ms, hms, h⟩ := Option.bind_eq_some_iff.mp h
  obtain ⟨out, hout, h⟩ := Option.bind_eq_some_iff.mp h
  rw [Literal.plainCharacter, hms, Option.all_some] at ht
  have hreplaced := (Literal.translated_of_translate hms).replaceEscapes_eq (by simp) hout ht
  rw [characterConstant, Literal.decode, hreplaced]
  split at h
  · split at h
    · rename_i hc
      obtain rfl := Option.some.inj h
      exact .character hc
    · cases h
  · cases h

theorem represents_integerConstant {t : Text} (h : (Semantics.typed.integer t) = some v) :
    ∃ c, integerConstant? t = some c ∧ c.Represents v := by
  obtain ⟨⟨isLong, n⟩, hn, rfl⟩ := Option.map_eq_some_iff.mp h
  refine ⟨ofNumber isLong n, ?_, ?_⟩
  · rw [integerConstant?, Literal.integer?_of_integerLiteral? hn]
    rfl
  · cases isLong with
    | false => exact represents_ofInt (BitVec.toInt_ofNat' n)
    | true => exact represents_ofLong (BitVec.toInt_ofNat' n)

end Constant

end LookupGen
