import LookupGen.Text.Encoding

/-!
# Characters in UTF-8

The bytes of a character are read back as the character, whatever follows them. The first byte of a
character decides what it needs of the bytes after it.

This module does NOT say which byte strings are UTF-8.
-/

namespace LookupGen.Utf8

variable {b : UInt8} {xs ys : Bytes} {r : Nat × Nat} {owed low high value taken : Nat}

/-- Bytes go on with a character, or are not looked at. -/
def GoesOn (f : Bytes → Except Fault (Nat × Nat)) : Prop :=
  (∃ r, ∀ rest, f rest = r) ∨ ∃ owed low high value, 0x80 ≤ low ∧ high ≤ 0xBF ∧
    ∀ rest, f rest = tail owed low high value 1 rest

theorem goesOn_const (r : Except Fault (Nat × Nat)) : GoesOn fun _ => r := .inl ⟨r, fun _ => rfl⟩

theorem goesOn_tail (owed value : Nat) (hlow : 0x80 ≤ low) (hhigh : high ≤ 0xBF) :
    GoesOn fun rest => tail owed low high value 1 rest :=
  .inr ⟨owed, low, high, value, hlow, hhigh, fun _ => rfl⟩

theorem GoesOn.ite {P : Prop} [Decidable P] {f g : Bytes → Except Fault (Nat × Nat)} (hf : GoesOn f)
    (hg : GoesOn g) : GoesOn fun rest => if P then f rest else g rest := by
  by_cases h : P
  · simp only [if_pos h]
    exact hf
  · simp only [if_neg h]
    exact hg

theorem goesOn_first (b : UInt8) : GoesOn (first b) := by
  unfold first
  refine (goesOn_const _).ite ((goesOn_const _).ite ?_)
  refine (goesOn_tail _ _ (by decide) (by decide)).ite ?_
  refine (goesOn_tail _ _ (by decide) (by decide)).ite ?_
  refine (goesOn_tail _ _ (by decide) (by decide)).ite ?_
  refine (goesOn_tail _ _ (by decide) (by decide)).ite ?_
  refine (goesOn_tail _ _ (by decide) (by decide)).ite ?_
  refine (goesOn_tail _ _ (by decide) (by decide)).ite ?_
  exact (goesOn_tail _ _ (by decide) (by decide)).ite (goesOn_const _)

theorem toNat_ofNat {n : Nat} (h : n < 256) : (UInt8.ofNat n).toNat = n := by
  rw [UInt8.toNat_ofNat', Nat.mod_eq_of_lt h]

theorem tail_cons {x : Nat} (hx : x < 64) (hlow : low ≤ 0x80 + x) (hhigh : 0x80 + x ≤ high)
    (rest : Bytes) :
    tail (owed + 1) low high value taken (UInt8.ofNat (0x80 + x) :: rest) =
      tail owed 0x80 0xBF (value * 64 + x) (taken + 1) rest := by
  have hbyte : (UInt8.ofNat (0x80 + x)).toNat = 0x80 + x := toNat_ofNat (by omega)
  rw [tail, hbyte, if_pos ⟨hlow, hhigh⟩, Nat.add_sub_cancel_left]

theorem tail_two {x y : Nat} (hx : x < 64) (hy : y < 64) (hlow : low ≤ 0x80 + x)
    (hhigh : 0x80 + x ≤ high) (rest : Bytes) :
    tail 2 low high value taken (UInt8.ofNat (0x80 + x) :: UInt8.ofNat (0x80 + y) :: rest) =
      .ok ((value * 64 + x) * 64 + y, taken + 2) := by
  rw [tail_cons hx hlow hhigh, tail_cons hy (by omega) (by omega), tail]

theorem tail_three {x y z : Nat} (hx : x < 64) (hy : y < 64) (hz : z < 64) (hlow : low ≤ 0x80 + x)
    (hhigh : 0x80 + x ≤ high) (rest : Bytes) :
    tail 3 low high value taken
        (UInt8.ofNat (0x80 + x) :: UInt8.ofNat (0x80 + y) :: UInt8.ofNat (0x80 + z) :: rest) =
      .ok (((value * 64 + x) * 64 + y) * 64 + z, taken + 3) := by
  rw [tail_cons hx hlow hhigh, tail_two hy hz (by omega) (by omega)]

theorem first_encodePoint {c : CodePoint} (hc : c.isSurrogate = false) :
    ∃ b more, encodePoint c = b :: more ∧ ¬ (0x80 ≤ b.toNat ∧ b.toNat ≤ 0xBF) ∧
      ∀ rest, first b (more ++ rest) = .ok (c.val, more.length + 1) := by
  have hrange : ¬ (0xD800 ≤ c.val ∧ c.val ≤ 0xDFFF) := by
    simpa [CodePoint.isSurrogate] using hc
  have hlt : c.val < 0x110000 := c.isLt
  generalize hn : c.val = n at *
  unfold encodePoint
  simp only [hn]
  split
  · have hb : (UInt8.ofNat n).toNat = n := toNat_ofNat (by omega)
    refine ⟨_, _, rfl, by omega, ?_⟩
    intro rest
    simp only [first, hb]
    rw [if_pos (by omega)]
    rfl
  · split
    · have hb : (UInt8.ofNat (0xC0 + n / 64)).toNat = 0xC0 + n / 64 := toNat_ofNat (by omega)
      refine ⟨_, _, rfl, by omega, ?_⟩
      intro rest
      simp only [first, hb, List.cons_append, List.nil_append]
      rw [if_neg (by omega), if_neg (by omega), if_pos (by omega),
        tail_cons (by omega) (by omega) (by omega), tail]
      exact congrArg Except.ok (Prod.ext (by omega) rfl)
    · split
      · have hb : (UInt8.ofNat (0xE0 + n / 4096)).toNat = 0xE0 + n / 4096 := toNat_ofNat (by omega)
        refine ⟨_, _, rfl, by omega, ?_⟩
        intro rest
        simp only [first, hb, List.cons_append, List.nil_append]
        rw [if_neg (by omega), if_neg (by omega), if_neg (by omega)]
        repeat' split
        all_goals first
          | omega
          | rw [tail_two (by omega) (by omega) (by omega) (by omega)]
            exact congrArg Except.ok (Prod.ext (by omega) rfl)
      · have hb : (UInt8.ofNat (0xF0 + n / 262144)).toNat = 0xF0 + n / 262144 :=
          toNat_ofNat (by omega)
        refine ⟨_, _, rfl, by omega, ?_⟩
        intro rest
        simp only [first, hb, List.cons_append, List.nil_append]
        rw [if_neg (by omega), if_neg (by omega), if_neg (by omega), if_neg (by omega),
          if_neg (by omega), if_neg (by omega)]
        repeat' split
        all_goals first
          | omega
          | rw [tail_three (by omega) (by omega) (by omega) (by omega) (by omega)]
            exact congrArg Except.ok (Prod.ext (by omega) rfl)

theorem not_isSurrogate_ofChar (c : Char) : (CodePoint.ofChar c).isSurrogate = false := by
  have hval : (CodePoint.ofChar c).val = c.toNat := rfl
  have hvalid : c.toNat < 0xD800 ∨ 0xDFFF < c.toNat ∧ c.toNat < 0x110000 := c.valid
  unfold CodePoint.isSurrogate
  rw [hval, Bool.and_eq_false_iff, decide_eq_false_iff_not, decide_eq_false_iff_not]
  omega

theorem decodeFrom_skip (xs ys : Bytes) (position : Nat) :
    decodeFrom position xs.length (xs ++ ys) = decodeFrom (position + xs.length) 0 ys := by
  induction xs generalizing position with
  | nil => rfl
  | cons b rest ih =>
    rw [List.cons_append, List.length_cons, decodeFrom, ih, Nat.add_assoc, Nat.add_comm 1]

theorem decodeFrom_encodePoint {c : CodePoint} (hc : c.isSurrogate = false) (position : Nat)
    (rest : Bytes) : ∃ later, decodeFrom position 0 (encodePoint c ++ rest) =
      (decodeFrom later 0 rest).map (c :: ·) := by
  obtain ⟨b, more, heq, -, hfirst⟩ := first_encodePoint hc
  refine ⟨position + 1 + more.length, ?_⟩
  have hpoint : Fin.ofNat 0x110000 c.val = c := Fin.ofNat_val_eq_self c
  rw [heq, List.cons_append, decodeFrom]
  simp only [hfirst, Nat.add_sub_cancel, decodeFrom_skip, hpoint]

end LookupGen.Utf8
