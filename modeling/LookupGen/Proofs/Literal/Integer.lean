import LookupGen.Literal
import Mathlib.Algebra.Group.Nat.Defs
import Mathlib.Data.List.Basic
import Mathlib.Data.List.DropRight

/-!
# Integer literals by their grammar

An integer literal as the language defines it: a prefix gives the base, a letter at the end makes
the literal long, and the value has to fit the type. Only a decimal literal is limited to the
positive half of the type and the value that just fits once it is negated.
-/

namespace LookupGen.Literal

def isSuffix (c : CodePoint) : Bool := c = 'l' || c = 'L'

def baseAndDigits : Text → Nat × Text
  | z :: c :: rest =>
    if z = '0' then
      if c = 'x' ∨ c = 'X' then (16, rest)
      else if c = 'b' ∨ c = 'B' then (2, rest)
      else (8, c :: rest)
    else (10, z :: c :: rest)
  | digits => (10, digits)

def baseDigit? (base : Nat) (c : CodePoint) : Option Nat := c.hexDigit?.filter (· < base)

def natural? (base : Nat) (digits : Text) : Option Nat :=
  if digits = [] then none
  else digits.foldlM (fun n c => (baseDigit? base c).map (base * n + ·)) 0

def bareLiteral (isLong : Bool) (t : Text) : Text :=
  List.filter (fun c => decide (c ≠ CodePoint.ofChar '_')) (if isLong then t.dropLast else t)

def inRange (isLong : Bool) (base n : Nat) : Bool :=
  let bits := if isLong then 64 else 32
  if base = 10 then n ≤ 2 ^ (bits - 1) else n < 2 ^ bits

/-- Whether a literal is long, and its value if that fits the type. -/
def integerLiteral? (t : Text) : Option (Bool × Nat) :=
  let isLong := t.getLast?.any isSuffix
  let d := baseAndDigits (bareLiteral isLong t)
  ((natural? d.1 d.2).filter (inRange isLong d.1)).map fun n => (isLong, n)

theorem baseDigit?_eq_some {base d : Nat} {c : CodePoint} (h : baseDigit? base c = some d) :
    c.hexDigit? = some d ∧ d < base := by
  obtain ⟨hd, hlt⟩ := Option.filter_eq_some_iff.mp h
  exact ⟨hd, of_decide_eq_true hlt⟩

theorem digit?_of_hexDigit? {c : CodePoint} {d : Nat} (h : c.hexDigit? = some d) (hd : d < 10) :
    c.digit? = some d := by
  unfold CodePoint.hexDigit? at h
  unfold CodePoint.digit?
  split at h
  · rename_i hc
    rw [if_pos hc, h]
  · split at h
    · have := Option.some.inj h
      omega
    · split at h
      · have := Option.some.inj h
        omega
      · cases h

theorem octalDigit?_of_hexDigit? {c : CodePoint} {d : Nat} (h : c.hexDigit? = some d)
    (hd : d < 8) : c.octalDigit? = some d := by
  have hdigit := digit?_of_hexDigit? h (by omega)
  unfold CodePoint.digit? at hdigit
  split at hdigit
  · have hc := Option.some.inj hdigit
    unfold CodePoint.octalDigit?
    rw [if_pos (by omega), hc]
  · cases hdigit

theorem isLongMark_of_baseDigit? {base d : Nat} {c : CodePoint} (h : baseDigit? base c = some d) :
    isLongMark c = false := by
  have hd := (baseDigit?_eq_some h).1
  simp only [isLongMark, Bool.or_eq_false_iff, decide_eq_false_iff_not]
  constructor
  · rintro rfl
    cases hd
  · rintro rfl
    cases hd

theorem digits?_of_foldlM {base : Nat} {digit : CodePoint → Option Nat}
    (hdigit : ∀ c d, baseDigit? base c = some d → digit c = some d) {t : Text} {acc n : Nat}
    (h : t.foldlM (fun n c => (baseDigit? base c).map (base * n + ·)) acc = some n) :
    t.foldlM (fun n c => (digit c).map (base * n + ·)) acc = some n := by
  induction t generalizing acc with
  | nil => exact h
  | cons c rest ih =>
    obtain ⟨m, hm, hrest⟩ := Option.bind_eq_some_iff.mp h
    obtain ⟨d, hd, rfl⟩ := Option.map_eq_some_iff.mp hm
    rw [List.foldlM_cons, hdigit c d hd]
    exact ih hrest

theorem le_of_foldlM {base : Nat} {t : Text} {acc n : Nat}
    (h : t.foldlM (fun n c => (baseDigit? base c).map (base * n + ·)) acc = some n) :
    base ^ t.length * acc ≤ n := by
  induction t generalizing acc with
  | nil =>
    obtain rfl := Option.some.inj h
    simp
  | cons c rest ih =>
    obtain ⟨m, hm, hrest⟩ := Option.bind_eq_some_iff.mp h
    obtain ⟨d, hd, rfl⟩ := Option.map_eq_some_iff.mp hm
    have hle := ih hrest
    calc base ^ (rest.length + 1) * acc = base ^ rest.length * (base * acc) := by
          rw [Nat.pow_succ, Nat.mul_assoc]
      _ ≤ base ^ rest.length * (base * acc + d) := Nat.mul_le_mul_left _ (Nat.le_add_right _ _)
      _ ≤ n := hle

theorem mem_baseDigit? {base : Nat} {t : Text} {acc n : Nat}
    (h : t.foldlM (fun n c => (baseDigit? base c).map (base * n + ·)) acc = some n) :
    ∀ c ∈ t, ∃ d, baseDigit? base c = some d := by
  induction t generalizing acc with
  | nil => simp
  | cons c rest ih =>
    obtain ⟨m, hm, hrest⟩ := Option.bind_eq_some_iff.mp h
    obtain ⟨d, hd, -⟩ := Option.map_eq_some_iff.mp hm
    intro x hx
    rcases List.mem_cons.mp hx with rfl | hx
    · exact ⟨d, hd⟩
    · exact ih hrest x hx

theorem natural?_eq_some {base n : Nat} {digits : Text} (h : natural? base digits = some n) :
    digits ≠ [] ∧ digits.foldlM (fun n c => (baseDigit? base c).map (base * n + ·)) 0 = some n := by
  unfold natural? at h
  split at h
  · cases h
  · rename_i hne
    exact ⟨hne, h⟩

theorem baseAndDigits_suffix (t : Text) : (baseAndDigits t).2 <:+ t := by
  unfold baseAndDigits
  split
  · rename_i z c rest
    split
    · split
      · exact (List.suffix_cons c rest).trans (List.suffix_cons z _)
      · split
        · exact (List.suffix_cons c rest).trans (List.suffix_cons z _)
        · exact List.suffix_cons z _
    · exact List.suffix_rfl
  · exact List.suffix_rfl

theorem dropEndWhile_of_digits {base : Nat} {t digits : Text} (hsuffix : digits <:+ t)
    (hne : digits ≠ []) (hdigits : ∀ c ∈ digits, ∃ d, baseDigit? base c = some d) :
    Text.dropEndWhile isLongMark t = t := by
  refine List.rdropWhile_eq_self_iff.mpr fun hl => ?_
  obtain ⟨d, hd⟩ := hdigits _ (List.getLast_mem hne)
  rw [← hsuffix.getLast hne, isLongMark_of_baseDigit? hd]
  simp

theorem dropEndWhile_isLongMark {t : Text} {n : Nat}
    (h : natural? (baseAndDigits t).1 (baseAndDigits t).2 = some n) :
    Text.dropEndWhile isLongMark t = t := by
  obtain ⟨hne, hfold⟩ := natural?_eq_some h
  exact dropEndWhile_of_digits (baseAndDigits_suffix t) hne (mem_baseDigit? hfold)

theorem digits?_of_natural? {base n : Nat} {digit : CodePoint → Option Nat} {digits : Text}
    (hdigit : ∀ c d, baseDigit? base c = some d → digit c = some d)
    (h : natural? base digits = some n) : Text.digits? base digit digits = some n :=
  digits?_of_foldlM hdigit (natural?_eq_some h).2

theorem digits?_ten {n : Nat} {digits : Text} (h : natural? 10 digits = some n) :
    Text.digits? 10 CodePoint.digit? digits = some n :=
  digits?_of_natural? (fun _ _ h => digit?_of_hexDigit? (baseDigit?_eq_some h).1
    (baseDigit?_eq_some h).2) h

/-- A decimal literal in the range of the types has few digits. -/
theorem length_le_maxDecimalDigits {z : CodePoint} {rest : Text} {n : Nat} (hz : z ≠ '0')
    (h : natural? 10 (z :: rest) = some n) (hn : n ≤ 2 ^ 63) :
    (z :: rest).length ≤ maxDecimalDigits := by
  obtain ⟨m, hm, hrest⟩ := Option.bind_eq_some_iff.mp (natural?_eq_some h).2
  obtain ⟨d, hd, rfl⟩ := Option.map_eq_some_iff.mp hm
  have hpos : 0 < d := by
    apply Nat.pos_of_ne_zero
    rintro rfl
    have hdigit := digit?_of_hexDigit? (baseDigit?_eq_some hd).1 (by omega)
    unfold CodePoint.digit? at hdigit
    split at hdigit
    · have hval := Option.some.inj hdigit
      exact hz (Fin.ext (show z.val = 0x30 by omega))
    · cases hdigit
  have hle := le_of_foldlM hrest
  have hpow : 10 ^ rest.length ≤ n :=
    Nat.le_trans (Nat.le_mul_of_pos_right _ (by omega)) hle
  have hlength : rest.length < 20 := by
    apply Nat.lt_of_not_le
    intro hlong
    have hmore : 10 ^ 20 ≤ 10 ^ rest.length := Nat.pow_le_pow_right (by omega) hlong
    omega
  simp only [List.length_cons, maxDecimalDigits]
  omega

theorem ne_zero_of_ten {z c : CodePoint} {rest : Text}
    (h : (baseAndDigits (z :: c :: rest)).1 = 10) : z ≠ '0' := by
  intro hz
  rw [baseAndDigits, if_pos hz] at h
  split at h
  · cases h
  · split at h
    · cases h
    · cases h

theorem length_le_of_decimal {t : Text} {n : Nat} (hbase : (baseAndDigits t).1 = 10)
    (h : natural? (baseAndDigits t).1 (baseAndDigits t).2 = some n) (hn : n ≤ 2 ^ 63) :
    t.length ≤ maxDecimalDigits := by
  cases t with
  | nil => exact Nat.zero_le _
  | cons z tail =>
    cases tail with
    | nil => exact Nat.succ_le_succ (Nat.zero_le _)
    | cons c rest =>
      have hz := ne_zero_of_ten hbase
      rw [baseAndDigits, if_neg hz] at h
      exact length_le_maxDecimalDigits hz h hn

theorem magnitude?_eq_some {t : Text} {n : Nat}
    (h : natural? (baseAndDigits t).1 (baseAndDigits t).2 = some n)
    (hlength : (baseAndDigits t).1 = 10 → t.length ≤ maxDecimalDigits) :
    magnitude? t = some n := by
  cases t with
  | nil => exact digits?_ten h
  | cons z tail =>
    cases tail with
    | nil => exact digits?_ten h
    | cons c rest =>
      simp only [baseAndDigits, magnitude?] at h hlength ⊢
      by_cases hz : z = '0'
      · rw [if_pos hz] at h ⊢
        by_cases hx : c = 'x' ∨ c = 'X'
        · rw [if_pos hx] at h ⊢
          exact digits?_of_natural? (fun _ _ h => (baseDigit?_eq_some h).1) h
        · rw [if_neg hx] at h ⊢
          by_cases hb : c = 'b' ∨ c = 'B'
          · rw [if_pos hb] at h ⊢
            refine digits?_of_natural? (fun _ _ h => ?_) h
            obtain ⟨hd, hlt⟩ := baseDigit?_eq_some h
            exact digit?_of_hexDigit? hd (Nat.lt_of_lt_of_le hlt (by omega))
          · rw [if_neg hb] at h ⊢
            exact digits?_of_natural? (fun _ _ h => octalDigit?_of_hexDigit?
              (baseDigit?_eq_some h).1 (baseDigit?_eq_some h).2) h
      · rw [if_neg hz] at h hlength ⊢
        rw [if_pos (hlength rfl)]
        exact digits?_ten h

/-- Cutting off the letters at the end is cutting off the suffix, if none stands before it. -/
theorem dropEndWhile_filter {t : Text} {isLong : Bool} (hlong : t.getLast?.any isSuffix = isLong)
    (hkeep : Text.dropEndWhile isLongMark (bareLiteral isLong t) = bareLiteral isLong t) :
    Text.dropEndWhile isLongMark (t.filter fun c => decide (c ≠ CodePoint.ofChar '_')) =
      bareLiteral isLong t := by
  cases isLong with
  | false => exact hkeep
  | true =>
    obtain ⟨c, hc, hsuffix⟩ := (Option.any_eq_true _ _).mp hlong
    have hlow : c ≠ '_' := by
      rintro rfl
      cases hsuffix
    have hfilter : t.filter (fun c => decide (c ≠ CodePoint.ofChar '_')) =
        bareLiteral true t ++ [c] := by
      conv_lhs => rw [← List.dropLast_append_getLast? c hc]
      simp [bareLiteral, hlow]
    rw [hfilter]
    exact (List.rdropWhile_concat_pos _ _ _ hsuffix).trans hkeep

theorem inRange_decimal {isLong : Bool} {n : Nat} (h : inRange isLong 10 n = true) :
    n ≤ 2 ^ 63 := by
  have hle : n ≤ 2 ^ ((if isLong then 64 else 32) - 1) := of_decide_eq_true h
  cases isLong with
  | true => exact hle
  | false => exact Nat.le_trans hle (by decide)

/-- A literal of the language has the value that the language gives it. -/
theorem integer?_of_integerLiteral? {t : Text} {isLong : Bool} {n : Nat}
    (h : integerLiteral? t = some (isLong, n)) : integer? t = some (isLong, n) := by
  obtain ⟨m, hm, heq⟩ := Option.map_eq_some_iff.mp h
  obtain ⟨hlong, rfl⟩ := Prod.mk.inj heq
  obtain ⟨hvalue, hrange⟩ := Option.filter_eq_some_iff.mp hm
  have hmark : t.getLast?.any isLongMark = isLong := hlong
  rw [hlong] at hvalue hrange
  have hmagnitude := magnitude?_eq_some hvalue fun hten =>
    length_le_of_decimal hten hvalue (inRange_decimal (hten ▸ hrange))
  rw [integer?, hmark, dropEndWhile_filter hlong (dropEndWhile_isLongMark hvalue), hmagnitude]
  rfl

end LookupGen.Literal
