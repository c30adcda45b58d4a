import LookupGen.Text.Encoding
import Mathlib.Data.BitVec

/-!
# UTF-16 units

The units of a text. A code point beyond FFFF has two; joining the halves of a pair into one code
point changes no unit.
-/

namespace LookupGen.Utf16

/-- The units of a code point; a surrogate is a unit of its own. -/
def pointUnits (c : CodePoint) : List (BitVec 16) :=
  if c.val < 0x10000 then [BitVec.ofNat 16 c.val]
  else [BitVec.ofNat 16 (0xD800 + (c.val - 0x10000) / 0x400),
    BitVec.ofNat 16 (0xDC00 + (c.val - 0x10000) % 0x400)]

def units (t : Text) : List (BitVec 16) := t.flatMap pointUnits

@[simp] theorem units_append (a b : Text) : units (a ++ b) = units a ++ units b :=
  List.flatMap_append

theorem units_cons (c : CodePoint) (t : Text) : units (c :: t) = pointUnits c ++ units t := rfl

theorem pointUnits_of_lt {c : CodePoint} (h : c.val < 0x10000) :
    pointUnits c = [BitVec.ofNat 16 c.val] := if_pos h

theorem pointUnits_combine {c d : CodePoint} (hc : c.isHighSurrogate = true)
    (hd : d.isLowSurrogate = true) : pointUnits (combine c d) = pointUnits c ++ pointUnits d := by
  simp only [CodePoint.isHighSurrogate, CodePoint.isLowSurrogate, Bool.and_eq_true,
    decide_eq_true_eq] at hc hd
  have hval : (combine c d).val = 0x10000 + (c.val - 0xD800) * 0x400 + (d.val - 0xDC00) :=
    Nat.mod_eq_of_lt (by omega)
  have hhigh : 0xD800 + ((combine c d).val - 0x10000) / 0x400 = c.val := by omega
  have hlow : 0xDC00 + ((combine c d).val - 0x10000) % 0x400 = d.val := by omega
  have hbeyond : ¬ (combine c d).val < 0x10000 := by omega
  have hc' : c.val < 0x10000 := by omega
  have hd' : d.val < 0x10000 := by omega
  rw [pointUnits_of_lt hc', pointUnits_of_lt hd', pointUnits, if_neg hbeyond, hhigh, hlow]
  rfl

@[simp] theorem units_joinPairs (t : Text) : units (joinPairs t) = units t := by
  induction t using joinPairs.induct with
  | case1 => rfl
  | case2 c => rfl
  | case3 c d rest hpair ih =>
    obtain ⟨hc, hd⟩ := Bool.and_eq_true_iff.mp hpair
    rw [joinPairs, if_pos hpair, units_cons, ih, pointUnits_combine hc hd, List.append_assoc]
    rfl
  | case4 c d rest hpair ih =>
    rw [joinPairs, if_neg hpair, units_cons, ih]
    rfl

end LookupGen.Utf16
