import LookupGen.Proofs.Text.Surrogates
import LookupGen.Proofs.Text.Units
import Mathlib.Data.List.Chain

/-!
# Joined pairs

A text is the canonical one for its UTF-16 units if no pair in it is left as two halves. Such a text
has a UTF-8 form just where its units are well formed. Units are read as such a text.
-/

namespace LookupGen

namespace CodePoint

theorem isHighSurrogate_iff {c : CodePoint} :
    c.isHighSurrogate = true ↔ 0xD800 ≤ c.val ∧ c.val ≤ 0xDBFF := by
  simp [isHighSurrogate]

theorem isLowSurrogate_iff {c : CodePoint} :
    c.isLowSurrogate = true ↔ 0xDC00 ≤ c.val ∧ c.val ≤ 0xDFFF := by
  simp [isLowSurrogate]

end CodePoint

namespace Utf16

variable {t u : Text}

/-- No high surrogate stands right before a low one. -/
def Joined (t : Text) : Prop :=
  t.IsChain fun c d => ¬ (c.isHighSurrogate = true ∧ d.isLowSurrogate = true)

instance : DecidablePred Joined := fun t =>
  inferInstanceAs (Decidable (t.IsChain fun c d =>
    ¬ (c.isHighSurrogate = true ∧ d.isLowSurrogate = true)))

def splits (t u : Text) : Bool :=
  t.getLast?.any (·.isHighSurrogate) && u.head?.any (·.isLowSurrogate)

theorem joined_append : Joined (t ++ u) ↔ Joined t ∧ Joined u ∧ splits t u = false := by
  unfold Joined
  rw [List.isChain_append]
  apply and_congr_right'
  apply and_congr_right'
  unfold splits
  cases t.getLast? with
  | none => simp
  | some c =>
    cases u.head? with
    | none => simp
    | some d => simp

theorem joined_cons {c : CodePoint} : Joined (c :: t) ↔
    (∀ d ∈ t.head?, ¬ (c.isHighSurrogate = true ∧ d.isLowSurrogate = true)) ∧ Joined t :=
  List.isChain_cons

theorem joined_of_not_hasSurrogate (h : t.hasSurrogate = false) : Joined t := by
  induction t with
  | nil => exact .nil
  | cons c t ih =>
    rw [Text.hasSurrogate_cons, Bool.or_eq_false_iff] at h
    apply joined_cons.mpr ⟨_, ih h.2⟩
    rintro d - ⟨hhigh, -⟩
    have hsurrogate : c.isSurrogate = true := by
      rw [CodePoint.isHighSurrogate_iff] at hhigh
      rw [CodePoint.isSurrogate_iff]
      omega
    rw [h.1] at hsurrogate
    cases hsurrogate

theorem joined_joinPairs_aux (t : Text) : Joined (joinPairs t) ∧
    ∀ d ∈ (joinPairs t).head?, d.isLowSurrogate = true → t.head? = some d := by
  induction t using joinPairs.induct with
  | case1 => exact ⟨.nil, by simp [joinPairs]⟩
  | case2 c => exact ⟨.singleton c, fun d hd _ => hd⟩
  | case3 c d rest hpair ih =>
    rw [joinPairs, if_pos hpair]
    obtain ⟨hc, hd⟩ := Bool.and_eq_true_iff.mp hpair
    rw [CodePoint.isHighSurrogate_iff] at hc
    rw [CodePoint.isLowSurrogate_iff] at hd
    have hval : (combine c d).val = 0x10000 + (c.val - 0xD800) * 0x400 + (d.val - 0xDC00) :=
      Nat.mod_eq_of_lt (by omega)
    constructor
    · apply joined_cons.mpr ⟨_, ih.1⟩
      rintro e - ⟨hhigh, -⟩
      rw [CodePoint.isHighSurrogate_iff] at hhigh
      omega
    · intro e he hlow
      obtain rfl := Option.some.inj he
      rw [CodePoint.isLowSurrogate_iff] at hlow
      omega
  | case4 c d rest hpair ih =>
    rw [joinPairs, if_neg hpair]
    obtain ⟨hjoined, hhead⟩ := ih
    constructor
    · apply joined_cons.mpr ⟨_, hjoined⟩
      rintro e he ⟨hhigh, hlow⟩
      obtain rfl := Option.some.inj (hhead e he hlow)
      exact hpair (Bool.and_eq_true_iff.mpr ⟨hhigh, hlow⟩)
    · exact fun e he _ => he

theorem joined_joinPairs (t : Text) : Joined (joinPairs t) := (joined_joinPairs_aux t).1

theorem toNat_ofNat {n : Nat} (h : n < 0x10000) : (BitVec.ofNat 16 n).toNat = n := by
  rw [BitVec.toNat_ofNat]
  exact Nat.mod_eq_of_lt h

def IsHigh (u : BitVec 16) : Prop := 0xD800 ≤ u.toNat ∧ u.toNat ≤ 0xDBFF

def IsLow (u : BitVec 16) : Prop := 0xDC00 ≤ u.toNat ∧ u.toNat ≤ 0xDFFF

inductive WellFormed : List (BitVec 16) → Prop where
  | nil : WellFormed []
  | single {u : BitVec 16} {us : List (BitVec 16)} (hhigh : ¬ IsHigh u) (hlow : ¬ IsLow u)
      (h : WellFormed us) : WellFormed (u :: us)
  | pair {u v : BitVec 16} {us : List (BitVec 16)} (hhigh : IsHigh u) (hlow : IsLow v)
      (h : WellFormed us) : WellFormed (u :: v :: us)

theorem pointUnits_of_ge {c : CodePoint} (h : 0x10000 ≤ c.val) :
    ∃ u v, pointUnits c = [u, v] ∧ IsHigh u ∧ IsLow v := by
  have hc := c.isLt
  refine ⟨_, _, if_neg (by omega), ?_, ?_⟩
  · rw [IsHigh, toNat_ofNat (by omega)]
    omega
  · rw [IsLow, toNat_ofNat (by omega)]
    omega

theorem head_of_isLow {u : BitVec 16} {us : List (BitVec 16)} (h : units t = u :: us)
    (hlow : IsLow u) : ∃ d ∈ t.head?, d.isLowSurrogate = true := by
  cases t with
  | nil => cases h
  | cons d t =>
    refine ⟨d, rfl, ?_⟩
    rw [units_cons] at h
    by_cases hd : d.val < 0x10000
    · rw [pointUnits_of_lt hd] at h
      obtain rfl := (List.cons.inj h).1
      rw [IsLow, toNat_ofNat hd] at hlow
      rw [CodePoint.isLowSurrogate_iff]
      exact hlow
    · obtain ⟨v, w, hunits, hhigh, -⟩ := pointUnits_of_ge (Nat.le_of_not_lt hd)
      rw [hunits] at h
      obtain rfl := (List.cons.inj h).1
      unfold IsHigh at hhigh
      unfold IsLow at hlow
      omega

/-- A code point up to FFFF whose unit is the first half of a pair has no second half after it. -/
theorem not_isLow_of_joined {c : CodePoint} {u v : BitVec 16} {us : List (BitVec 16)}
    (h : Joined (c :: t)) (hc : c.val < 0x10000) (hunits : units (c :: t) = u :: v :: us)
    (hhigh : IsHigh u) : ¬ IsLow v := by
  intro hlow
  rw [units_cons, pointUnits_of_lt hc] at hunits
  obtain ⟨rfl, hrest⟩ := List.cons.inj hunits
  obtain ⟨d, hd, hdlow⟩ := head_of_isLow hrest hlow
  rw [IsHigh, toNat_ofNat hc] at hhigh
  exact (joined_cons.mp h).1 d hd ⟨CodePoint.isHighSurrogate_iff.mpr hhigh, hdlow⟩

theorem not_hasSurrogate_of_wellFormed (hunits : WellFormed (units t)) (h : Joined t) :
    t.hasSurrogate = false := by
  induction t with
  | nil => rfl
  | cons c t ih =>
    have ht := (joined_cons.mp h).2
    rw [Text.hasSurrogate_cons, Bool.or_eq_false_iff]
    by_cases hc : c.val < 0x10000
    · have hall : units (c :: t) = BitVec.ofNat 16 c.val :: units t := by
        rw [units_cons, pointUnits_of_lt hc, List.singleton_append]
      rw [hall] at hunits
      generalize units t = us at hunits ih hall
      cases hunits with
      | single hhigh hlow hus =>
        refine ⟨?_, ih hus ht⟩
        rw [IsHigh, toNat_ofNat hc] at hhigh
        rw [IsLow, toNat_ofNat hc] at hlow
        rw [Bool.eq_false_iff, Ne, CodePoint.isSurrogate_iff]
        omega
      | pair hhigh hlow hus => exact absurd hlow (not_isLow_of_joined h hc hall hhigh)
    · obtain ⟨u, v, hpoint, hhigh, hlow⟩ := pointUnits_of_ge (Nat.le_of_not_lt hc)
      rw [units_cons, hpoint] at hunits
      have hus : WellFormed (units t) := by
        cases hunits with
        | single hnot _ _ => exact absurd hhigh hnot
        | pair _ _ hus => exact hus
      refine ⟨?_, ih hus ht⟩
      rw [Bool.eq_false_iff, Ne, CodePoint.isSurrogate_iff]
      omega

theorem encode_isOk_iff_joined (hunits : WellFormed (units t)) :
    (∃ bytes, Utf8.encode t = .ok bytes) ↔ Joined t := by
  rw [Utf8.encode_isOk_iff]
  exact ⟨joined_of_not_hasSurrogate, not_hasSurrogate_of_wellFormed hunits⟩

theorem pointUnits_ne_nil (c : CodePoint) : pointUnits c ≠ [] := by
  unfold pointUnits
  split
  · exact List.cons_ne_nil _ _
  · exact List.cons_ne_nil _ _

theorem pointUnits_injective {c d : CodePoint} (h : pointUnits c = pointUnits d) : c = d := by
  have hcLt := c.isLt
  have hdLt := d.isLt
  apply Fin.ext
  unfold pointUnits at h
  split at h
  · rename_i hc
    split at h
    · rename_i hd
      have hunit := congrArg BitVec.toNat (List.cons.inj h).1
      rwa [toNat_ofNat hc, toNat_ofNat hd] at hunit
    · exact absurd (congrArg List.length h) (by simp)
  · split at h
    · exact absurd (congrArg List.length h) (by simp)
    · obtain ⟨hfirst, hrest⟩ := List.cons.inj h
      have hhigh := congrArg BitVec.toNat hfirst
      have hlow := congrArg BitVec.toNat (List.cons.inj hrest).1
      rw [toNat_ofNat (by omega), toNat_ofNat (by omega)] at hhigh hlow
      omega

/-- No two texts without split pairs have the same units. -/
theorem joined_unique (ht : Joined t) (hu : Joined u) (h : units t = units u) : t = u := by
  -- By induction on both: a code point beyond FFFF cannot meet a high surrogate in the other
  -- text, since no low one follows that.
  induction t generalizing u with
  | nil =>
    cases u with
    | nil => rfl
    | cons d u =>
      rw [units_cons] at h
      exact absurd (List.append_eq_nil_iff.mp h.symm).1 (pointUnits_ne_nil d)
  | cons c t ih =>
    cases u with
    | nil =>
      rw [units_cons] at h
      exact absurd (List.append_eq_nil_iff.mp h).1 (pointUnits_ne_nil c)
    | cons d u =>
      have hpoints : (pointUnits c).length = (pointUnits d).length := by
        by_cases hc : c.val < 0x10000
        · by_cases hd : d.val < 0x10000
          · rw [pointUnits_of_lt hc, pointUnits_of_lt hd]
            rfl
          · obtain ⟨v, w, hpoint, hhigh, hlow⟩ := pointUnits_of_ge (Nat.le_of_not_lt hd)
            have hunits : units (c :: t) = v :: w :: units u := by rw [h, units_cons, hpoint]; rfl
            exact absurd hlow (not_isLow_of_joined ht hc hunits hhigh)
        · obtain ⟨v, w, hpoint, hhigh, hlow⟩ := pointUnits_of_ge (Nat.le_of_not_lt hc)
          by_cases hd : d.val < 0x10000
          · have hunits : units (d :: u) = v :: w :: units t := by rw [← h, units_cons, hpoint]; rfl
            exact absurd hlow (not_isLow_of_joined hu hd hunits hhigh)
          · obtain ⟨v', w', hpoint', -, -⟩ := pointUnits_of_ge (Nat.le_of_not_lt hd)
            rw [hpoint, hpoint']
            rfl
      rw [units_cons, units_cons] at h
      obtain ⟨hpoint, hrest⟩ := List.append_inj h hpoints
      rw [pointUnits_injective hpoint, ih (joined_cons.mp ht).2 (joined_cons.mp hu).2 hrest]

theorem joined_iff_unique :
    Joined t ↔ ∀ u, Joined u → units u = units t → u = t := by
  constructor
  · intro ht u hu h
    exact joined_unique hu ht h
  · intro hunique
    rw [← hunique (joinPairs t) (joined_joinPairs t) (units_joinPairs t)]
    exact joined_joinPairs t

/-- The text of units: each valid pair is one code point, and any other half stays by itself. -/
def ofUnits (us : List (BitVec 16)) : Text := joinPairs (us.map fun u => Fin.ofNat 0x110000 u.toNat)

@[simp] theorem units_map_toNat (us : List (BitVec 16)) :
    units (us.map fun u => Fin.ofNat 0x110000 u.toNat) = us := by
  induction us with
  | nil => rfl
  | cons v us ih =>
    have hv := v.isLt
    have hval : (Fin.ofNat 0x110000 v.toNat).val = v.toNat := Nat.mod_eq_of_lt (by omega)
    have hpoint : pointUnits (Fin.ofNat 0x110000 v.toNat) = [v] := by
      rw [pointUnits_of_lt (by omega), hval, BitVec.ofNat_toNat, BitVec.setWidth_eq]
    rw [List.map_cons, units_cons, ih, hpoint, List.singleton_append]

@[simp] theorem ofUnits_units (t : Text) : ofUnits (units t) = joinPairs t := by
  apply joined_unique (joined_joinPairs _) (joined_joinPairs t)
  rw [units_joinPairs, units_joinPairs, units_map_toNat]

theorem joinPairs_eq_iff : joinPairs t = joinPairs u ↔ units t = units u := by
  constructor
  · intro h
    rw [← units_joinPairs t, h, units_joinPairs]
  · intro h
    apply joined_unique (joined_joinPairs t) (joined_joinPairs u)
    rw [units_joinPairs, units_joinPairs, h]

end Utf16

end LookupGen
