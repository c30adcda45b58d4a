import LookupGen.Proofs.Literal.Sequence
import LookupGen.Proofs.Text.Pairs

/-!
# Outputs that run apart

What a reader in one pass puts out beside what the two passes of the language put out, piece by
piece. Where they first differ, the reader in one pass puts out more, and what comes after never
makes up for it. So the outputs are equal just where no piece differs.

This module does NOT say which pieces a body has.
-/

namespace LookupGen.Literal

open Utf16 (units units_append units_cons pointUnits pointUnits_of_lt pointUnits_of_ge)

/-- Two outputs of which the first one is a suffix of the second one only if they are equal. -/
def Level {α : Type} (a b : List α) : Prop := a <:+ b → a = b

theorem Level.append {α : Type} {a b c d : List α} (h : Level a b) (hle : d.length ≤ c.length) :
    Level (c ++ a) (d ++ b) := by
  intro hsuffix
  have hlength := hsuffix.length_le
  rw [List.length_append, List.length_append] at hlength
  have hab : a <:+ b := List.suffix_of_suffix_length_le ((List.suffix_append c a).trans hsuffix)
    (List.suffix_append d b) (by omega)
  have heq := h hab
  apply hsuffix.eq_of_length
  rw [List.length_append, List.length_append]
  rw [heq] at hlength ⊢
  omega

theorem Level.ne {α : Type} {a b c d : List α} (h : Level a b) (hlt : d.length < c.length) :
    c ++ a ≠ d ++ b := by
  intro heq
  have hlength := congrArg List.length heq
  rw [List.length_append, List.length_append] at hlength
  have hab : a <:+ b := List.suffix_of_suffix_length_le
    (heq ▸ List.suffix_append c a) (List.suffix_append d b) (by omega)
  rw [h hab] at hlength
  omega

/-- Both outputs go on with one unit. The first one is shorter then, but it lags behind only until
the unit comes again. -/
theorem Level.cons_of_not_mem {α : Type} {x y : α} {a b d : List α} (h : Level a b) (hd : x ∉ d) :
    Level (x :: y :: a) (x :: d ++ b) := by
  rintro ⟨s, hs⟩
  cases s with
  | nil => exact hs
  | cons z s =>
    obtain ⟨-, hs⟩ := List.cons.inj hs
    exfalso
    obtain ⟨r, hr⟩ : ∃ r, b = r ++ x :: y :: a := by
      rcases List.append_eq_append_iff.mp hs with ⟨r, hd', hr⟩ | ⟨r, -, hr⟩
      · cases r with
        | nil => exact ⟨[], hr.symm⟩
        | cons w r =>
          obtain ⟨rfl, -⟩ := List.cons.inj hr
          exact absurd (hd' ▸ List.mem_append_right s List.mem_cons_self) hd
      · exact ⟨r, hr⟩
    have hsuffix : a <:+ b := ⟨r ++ [x, y], by rw [hr]; simp⟩
    have hlength := congrArg List.length hr
    rw [h hsuffix, List.length_append, List.length_cons, List.length_cons] at hlength
    omega

def IsDigit (u : BitVec 16) : Prop := 0x30 ≤ u.toNat ∧ u.toNat ≤ 0x37

/-- What the two readers put out for what is left of a body, and whether its Unicode escapes are
harmless. If it is `pending`, the first reader has put out a backslash with which the second one has
begun an escape sequence. -/
inductive Compared : (pending : Bool) → Text → Text → Bool → Prop where
  | nil : Compared false [] [] true
  | same (w : CodePoint) {a b : Text} {h : Bool} :
      Compared false a b h → Compared false (w :: a) (w :: b) h
  /-- An octal escape that a Unicode escape continues. -/
  | continued {v w : CodePoint} {ds a b : Text} {h : Bool} :
      v.val < 0x20 → w.val < 0x10000 → ds ≠ [] → Compared false a b h →
      Compared false (v :: (ds ++ a)) (w :: b) false
  | begun {a b : Text} {h : Bool} : Compared true a b h → Compared false a b h
  /-- The escape sequence ends before the next backslash. -/
  | replaced {w : CodePoint} {cs a b : Text} {h : Bool} :
      w.val < 0x10000 → cs ≠ [] → Compared false a b h →
      Compared true ('\\' :: (cs ++ a)) (w :: b) false
  | backslashes {a b : Text} {h : Bool} :
      Compared true a b h → Compared true ('\\' :: a) ('\\' :: b) h
  | apostrophe {a b : Text} {h : Bool} :
      Compared false a b h → Compared true ('\\' :: '\'' :: a) ('\\' :: '\'' :: b) h
  /-- An escape for the first reader alone. -/
  | unread {v c : CodePoint} {ds a b : Text} {h : Bool} :
      v.val < 0x10000 → c.val < 0x10000 → c ≠ '\\' → (ds = [] → v ≠ c) → (∀ d ∈ ds, IsOctal d) →
      Compared false a b h → Compared true ('\\' :: v :: a) ('\\' :: c :: (ds ++ b)) false
  /-- A backslash that begins an escape for neither reader. -/
  | bare (c : CodePoint) {a b : Text} {h : Bool} :
      Compared false a b h → Compared true ('\\' :: '\\' :: c :: a) ('\\' :: c :: b) false

theorem isDigit_of_mem_units {ds : Text} (h : ∀ d ∈ ds, IsOctal d) :
    ∀ u ∈ units ds, IsDigit u := by
  intro u hu
  obtain ⟨d, hd, hu⟩ := List.mem_flatMap.mp hu
  have hrange := isOctal_iff.mp (h d hd)
  rw [pointUnits_of_lt (by omega), List.mem_singleton] at hu
  rw [hu, IsDigit, Utf16.toNat_ofNat (by omega)]
  exact hrange

theorem length_pointUnits_le (c : CodePoint) :
    1 ≤ (pointUnits c).length ∧ (pointUnits c).length ≤ 2 := by
  unfold pointUnits
  split
  · simp
  · simp

theorem length_units_pos {cs : Text} (h : cs ≠ []) : 1 ≤ (units cs).length := by
  cases cs with
  | nil => exact absurd rfl h
  | cons c cs =>
    rw [units_cons, List.length_append]
    exact Nat.le_add_right_of_le (length_pointUnits_le c).1

theorem units_cons_inj {c : CodePoint} {a b : Text} :
    units (c :: a) = units (c :: b) ↔ units a = units b := by
  rw [units_cons, units_cons, List.append_right_inj]

namespace Compared

variable {pending h : Bool} {a b : Text}

/-- The first reader never lags behind. -/
theorem level (hab : Compared pending a b h) : Level (units a) (units b) := by
  induction hab with
  | nil => exact fun _ => rfl
  | same w _ ih => exact ih.append (Nat.le_refl _)
  | @continued v w ds a b h hv hw hds _ ih =>
    rw [← List.cons_append, units_append, units_cons]
    apply ih.append
    rw [pointUnits_of_lt hw, List.length_singleton]
    exact length_units_pos (List.cons_ne_nil v ds)
  | begun _ ih => exact ih
  | @replaced w cs a b h hw hcs _ ih =>
    rw [← List.cons_append, units_append, units_cons]
    apply ih.append
    rw [pointUnits_of_lt hw, List.length_singleton]
    exact length_units_pos (List.cons_ne_nil _ cs)
  | backslashes _ ih => exact ih.append (Nat.le_refl _)
  | apostrophe _ ih => exact (ih.append (Nat.le_refl _)).append (Nat.le_refl _)
  | @unread v c ds a b h hv hc hne _ hds _ ih =>
    have hmem : (0x5C : BitVec 16) ∉ units (c :: ds) := by
      rw [units_cons, pointUnits_of_lt hc]
      intro hmem
      rcases List.mem_cons.mp hmem with heq | hmem
      · have hval := congrArg BitVec.toNat heq
        rw [Utf16.toNat_ofNat hc] at hval
        exact hne (Fin.ext hval.symm)
      · have hdigit := isDigit_of_mem_units hds _ hmem
        exact absurd hdigit.2 (by decide)
    have hlevel := ih.cons_of_not_mem hmem (y := BitVec.ofNat 16 v.val)
    rw [units_cons, units_cons v, pointUnits_of_lt hv, units_cons, ← List.cons_append, units_append]
    exact hlevel
  | bare c _ ih =>
    have hlevel := ih.append (c := units ['\\', '\\', c]) (d := units ['\\', c]) ?_
    · rw [← units_append, ← units_append] at hlevel
      exact hlevel
    · rw [units_cons _ ['\\', c], List.length_append]
      exact Nat.le_add_left _ _

theorem ne_append_digits (hab : Compared pending a b h) {s : List (BitVec 16)} (hs : s ≠ [])
    (hdigits : ∀ u ∈ s, IsDigit u) : units a ≠ s ++ units b := by
  induction hab generalizing s with
  | nil => exact fun heq => hs (List.append_eq_nil_iff.mp heq.symm).1
  | @same w a b h _ ih =>
    obtain ⟨u, s, rfl⟩ := List.exists_cons_of_ne_nil hs
    intro heq
    rw [units_cons, units_cons] at heq
    by_cases hw : w.val < 0x10000
    · rw [pointUnits_of_lt hw] at heq
      obtain ⟨hu, heq⟩ := List.cons.inj heq
      -- The digit that both put out moves to the end of what the first reader is ahead by.
      refine ih (s := s ++ [u]) (by simp) ?_ ?_
      · intro v hv
        rcases List.mem_append.mp hv with hv | hv
        · exact hdigits v (List.mem_cons_of_mem u hv)
        · rw [List.mem_singleton.mp hv]
          exact hdigits u List.mem_cons_self
      · rw [← hu, List.append_assoc]
        exact heq
    · obtain ⟨v, v', hpoint, hhigh, -⟩ := pointUnits_of_ge (Nat.le_of_not_lt hw)
      rw [hpoint] at heq
      obtain ⟨rfl, -⟩ := List.cons.inj heq
      have hv := hdigits v List.mem_cons_self
      unfold IsDigit at hv
      unfold Utf16.IsHigh at hhigh
      omega
  | @continued v w ds a b h hv =>
    intro heq
    obtain ⟨u, s, rfl⟩ := List.exists_cons_of_ne_nil hs
    rw [units_cons, pointUnits_of_lt (by omega)] at heq
    obtain ⟨rfl, -⟩ := List.cons.inj heq
    have hu := hdigits _ List.mem_cons_self
    rw [IsDigit, Utf16.toNat_ofNat (by omega)] at hu
    omega
  | begun _ ih => exact ih hs hdigits
  | replaced | backslashes | apostrophe | unread | bare =>
    intro heq
    obtain ⟨u, s, rfl⟩ := List.exists_cons_of_ne_nil hs
    obtain ⟨rfl, -⟩ := List.cons.inj heq
    exact absurd (hdigits _ List.mem_cons_self).2 (by decide)

/-- The outputs are equal just where the Unicode escapes are harmless. -/
theorem units_eq_iff (hab : Compared pending a b h) : units a = units b ↔ h = true := by
  induction hab with
  | nil => exact iff_of_true rfl rfl
  | same w _ ih => rw [units_cons_inj, ih]
  | @continued v w ds a b h hv hw hds hab _ =>
    refine iff_of_false ?_ Bool.false_ne_true
    rw [← List.cons_append, units_append, units_cons w]
    apply hab.level.ne
    rw [pointUnits_of_lt hw, units_cons, pointUnits_of_lt (by omega), List.length_append,
      List.length_singleton]
    have hpos := length_units_pos hds
    simp only [List.length_singleton]
    omega
  | begun _ ih => exact ih
  | @replaced w cs a b h hw hcs hab _ =>
    refine iff_of_false ?_ Bool.false_ne_true
    rw [← List.cons_append, units_append, units_cons w]
    apply hab.level.ne
    rw [pointUnits_of_lt hw, units_cons, List.length_append, List.length_singleton]
    have hpos := length_units_pos hcs
    have hbackslash := (length_pointUnits_le '\\').1
    omega
  | backslashes _ ih => rw [units_cons_inj, ih]
  | apostrophe _ ih => rw [units_cons_inj, units_cons_inj, ih]
  | @unread v c ds a b h hv hc hne hnil hds hab _ =>
    refine iff_of_false ?_ Bool.false_ne_true
    rw [units_cons_inj, units_cons, units_cons, pointUnits_of_lt hv, pointUnits_of_lt hc,
      units_append]
    intro heq
    obtain ⟨hunit, heq⟩ := List.cons.inj heq
    by_cases hempty : ds = []
    · apply hnil hempty
      apply Utf16.pointUnits_injective
      rw [pointUnits_of_lt hv, pointUnits_of_lt hc, hunit]
    · refine hab.ne_append_digits ?_ (isDigit_of_mem_units hds) heq
      exact List.ne_nil_of_length_pos (length_units_pos hempty)
  | bare c hab _ =>
    refine iff_of_false ?_ Bool.false_ne_true
    have hne := hab.level.ne (c := units ['\\', '\\', c]) (d := units ['\\', c]) ?_
    · rw [← units_append, ← units_append] at hne
      exact hne
    · rw [units_cons _ ['\\', c], List.length_append]
      exact Nat.lt_add_of_pos_left (length_pointUnits_le '\\').1

end Compared

end LookupGen.Literal
