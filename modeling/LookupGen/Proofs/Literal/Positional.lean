import LookupGen.Proofs.Java.Glyph
import LookupGen.Proofs.Java.Integer
import LookupGen.Proofs.Literal.Integer
import Mathlib.Data.Nat.Digits.Defs
import Mathlib.Tactic.Ring

/-!
# The positional value of integer literals

An integer literal, as the grammar has it, stands for the number that its digits denote in its base.
Two kinds of literals have no value: a decimal literal of very many digits, and an octal one that is
marked by a letter after its zero.

This module does NOT limit the value: it is cut to the width of the type later.
-/

namespace LookupGen.Literal

open Java (Glyph)

/-- The text of an integer token, whatever comes after it. -/
def IsInteger (t : Text) : Prop :=
  ∃ g rest n, Java.Token.kindAndRest g rest = (.integer, n) ∧ Glyph.text (g :: rest.take n) = .ok t

def isOctalMark (c : CodePoint) : Bool := c = 'o' || c = 'O'

def radixAndDigits : Text → Nat × Text
  | z :: c :: rest => if z = '0' ∧ isOctalMark c then (8, rest) else baseAndDigits (z :: c :: rest)
  | digits => baseAndDigits digits

def isLong (t : Text) : Bool := t.getLast?.any isSuffix

def bare (t : Text) : Text := bareLiteral (isLong t) t

def numeral (t : Text) : Nat × Text := radixAndDigits (bare t)

def digitValue (c : CodePoint) : Nat := c.hexDigit?.getD 0

def positional (base : Nat) (digits : Text) : Nat :=
  Nat.ofDigits base (digits.map digitValue).reverse

def literalValue (t : Text) : Nat := positional (numeral t).1 (numeral t).2

/-- An octal literal with a letter after its zero. -/
def isMarked (t : Text) : Bool := (bare t)[1]?.any isOctalMark

/-- Neither a marked octal literal nor a decimal one of very many digits. -/
def HasValue (t : Text) : Prop :=
  isMarked t = false ∧ ((numeral t).1 = 10 → (numeral t).2.length ≤ 4300)

theorem baseDigit?_of_hexDigit? {base d : Nat} {c : CodePoint} (h : c.hexDigit? = some d)
    (hd : d < base) : baseDigit? base c = some d := by
  rw [baseDigit?, h, Option.filter_some, decide_eq_true hd, if_pos rfl]

theorem baseDigit?_of_range {base : Nat} {c : CodePoint} (hlow : 0x30 ≤ c.val)
    (hhigh : c.val ≤ 0x39) (hbase : c.val < 0x30 + base) : ∃ d, baseDigit? base c = some d := by
  refine ⟨c.val - 0x30, baseDigit?_of_hexDigit? ?_ (by omega)⟩
  unfold CodePoint.hexDigit?
  rw [if_pos ⟨hlow, hhigh⟩]

theorem baseDigit?_of_isHexDigit {c : Char} (h : Java.Token.isHexDigit c = true) :
    ∃ d, baseDigit? 16 (CodePoint.ofChar c) = some d := by
  have hle (a b : Char) : a ≤ b ↔ a.toNat ≤ b.toNat := Iff.rfl
  have hval : (CodePoint.ofChar c).val = c.toNat := rfl
  simp only [Java.Token.isHexDigit, Java.Token.isDigit, Bool.or_eq_true, Bool.and_eq_true,
    decide_eq_true_eq, hle, ← hval] at h
  rcases h with (⟨hlow, hhigh⟩ | ⟨hlow, hhigh⟩) | ⟨hlow, hhigh⟩
  · exact baseDigit?_of_range hlow hhigh (Nat.lt_of_le_of_lt hhigh (by decide))
  · have hlow : 0x61 ≤ (CodePoint.ofChar c).val := hlow
    have hhigh : (CodePoint.ofChar c).val ≤ 0x66 := hhigh
    refine ⟨(CodePoint.ofChar c).val - 0x57, baseDigit?_of_hexDigit? ?_ (by omega)⟩
    unfold CodePoint.hexDigit?
    rw [if_neg (by omega), if_pos ⟨hlow, hhigh⟩]
  · have hlow : 0x41 ≤ (CodePoint.ofChar c).val := hlow
    have hhigh : (CodePoint.ofChar c).val ≤ 0x46 := hhigh
    refine ⟨(CodePoint.ofChar c).val - 0x37, baseDigit?_of_hexDigit? ?_ (by omega)⟩
    unfold CodePoint.hexDigit?
    rw [if_neg (by omega), if_neg (by omega), if_pos ⟨hlow, hhigh⟩]

theorem baseDigit?_of_isDigit {c : Char} (h : Java.Token.isDigit c = true) :
    ∃ d, baseDigit? 10 (CodePoint.ofChar c) = some d := by
  obtain ⟨hlow, hhigh⟩ := Bool.and_eq_true_iff.mp h
  have hlow : 0x30 ≤ (CodePoint.ofChar c).val := of_decide_eq_true hlow
  have hhigh : (CodePoint.ofChar c).val ≤ 0x39 := of_decide_eq_true hhigh
  exact baseDigit?_of_range hlow hhigh (by omega)

theorem baseDigit?_of_isOctalDigit {c : Char} (h : Java.Token.isOctalDigit c = true) :
    ∃ d, baseDigit? 8 (CodePoint.ofChar c) = some d := by
  obtain ⟨hlow, hhigh⟩ := Bool.and_eq_true_iff.mp h
  have hlow : 0x30 ≤ (CodePoint.ofChar c).val := of_decide_eq_true hlow
  have hhigh : (CodePoint.ofChar c).val ≤ 0x37 := of_decide_eq_true hhigh
  exact baseDigit?_of_range hlow (by omega) (by omega)

theorem baseDigit?_of_isBinaryDigit {c : Char} (h : Java.Token.isBinaryDigit c = true) :
    ∃ d, baseDigit? 2 (CodePoint.ofChar c) = some d := by
  rcases Bool.or_eq_true_iff.mp h with h | h
  · rw [beq_iff_eq.mp h]
    exact ⟨0, rfl⟩
  · rw [beq_iff_eq.mp h]
    exact ⟨1, rfl⟩

theorem positional_cons (base : Nat) (c : CodePoint) (digits : Text) :
    positional base (c :: digits) =
      base ^ digits.length * digitValue c + positional base digits := by
  rw [positional, List.map_cons, List.reverse_cons, Nat.ofDigits_append, Nat.ofDigits_singleton,
    List.length_reverse, List.length_map, Nat.add_comm]
  rfl

theorem foldlM_eq_positional {base : Nat} {digits : Text}
    (h : ∀ c ∈ digits, ∃ d, baseDigit? base c = some d) (acc : Nat) :
    digits.foldlM (fun n c => (baseDigit? base c).map (base * n + ·)) acc =
      some (base ^ digits.length * acc + positional base digits) := by
  induction digits generalizing acc with
  | nil =>
    rw [List.length_nil, Nat.pow_zero, Nat.one_mul]
    rfl
  | cons c digits ih =>
    obtain ⟨d, hd⟩ := h c List.mem_cons_self
    have hvalue : digitValue c = d := by
      rw [digitValue, (baseDigit?_eq_some hd).1, Option.getD_some]
    rw [List.foldlM_cons, hd, positional_cons, hvalue]
    refine (ih (fun x hx => h x (List.mem_cons_of_mem c hx)) _).trans (congrArg some ?_)
    rw [List.length_cons, Nat.pow_succ]
    ring

theorem natural?_eq_positional {base : Nat} {digits : Text} (hne : digits ≠ [])
    (h : ∀ c ∈ digits, ∃ d, baseDigit? base c = some d) :
    natural? base digits = some (positional base digits) := by
  rw [natural?, if_neg hne, foldlM_eq_positional h, Nat.mul_zero, Nat.zero_add]

structure Shape (t : Text) (base : Nat) (digits : Text) : Prop where
  ne_nil : digits ≠ []
  digit : ∀ c ∈ digits, ∃ d, baseDigit? base c = some d
  suffix : digits <:+ bare t
  numeral : numeral t = (base, digits)
  marked : isMarked t = true →
    ∃ o : CodePoint, bare t = ('0' :: o :: digits : Text) ∧ isOctalMark o = true

theorem radixAndDigits_of_unmarked {t : Text} (h : t[1]?.any isOctalMark = false) :
    radixAndDigits t = baseAndDigits t := by
  cases t with
  | nil => rfl
  | cons z tail =>
    cases tail with
    | nil => rfl
    | cons c rest =>
      have hc : isOctalMark c = false := h
      rw [radixAndDigits, hc, if_neg (fun h => Bool.false_ne_true h.2)]

theorem baseAndDigits_ten {t : Text} (h : (baseAndDigits t).1 = 10) : (baseAndDigits t).2 = t := by
  cases t with
  | nil => rfl
  | cons z tail =>
    cases tail with
    | nil => rfl
    | cons c rest => rw [baseAndDigits, if_neg (ne_zero_of_ten h)]

theorem magnitude?_of_long {t : Text} (h : (baseAndDigits t).1 = 10)
    (hlong : maxDecimalDigits < t.length) : magnitude? t = none := by
  cases t with
  | nil => exact absurd hlong (Nat.not_lt_zero _)
  | cons z tail =>
    cases tail with
    | nil => exact absurd hlong (Nat.not_lt_of_le (Nat.succ_le_succ (Nat.zero_le _)))
    | cons c rest =>
      rw [magnitude?, if_neg (ne_zero_of_ten h), if_neg (Nat.not_le_of_lt hlong)]

theorem magnitude?_marked {o : CodePoint} (ho : isOctalMark o = true) (digits : Text) :
    magnitude? ('0' :: o :: digits) = none := by
  rcases Bool.or_eq_true_iff.mp ho with h | h
  · rw [of_decide_eq_true h]
    rfl
  · rw [of_decide_eq_true h]
    rfl

namespace Shape

variable {t digits : Text} {base : Nat}

theorem integer?_eq (h : Shape t base digits) :
    integer? t = (magnitude? (bare t)).map fun n => (isLong t, n) := by
  have hkeep : Text.dropEndWhile isLongMark (bare t) = bare t :=
    dropEndWhile_of_digits h.suffix h.ne_nil h.digit
  have hdrop : Text.dropEndWhile isLongMark
      (t.filter fun c => decide (c ≠ CodePoint.ofChar '_')) = bare t :=
    dropEndWhile_filter rfl hkeep
  rw [integer?, hdrop]
  rfl

theorem magnitude?_eq (h : Shape t base digits) (hvalue : HasValue t) :
    magnitude? (bare t) = some (literalValue t) := by
  have hbase : baseAndDigits (bare t) = (base, digits) :=
    (radixAndDigits_of_unmarked hvalue.1).symm.trans h.numeral
  have hnatural : natural? (baseAndDigits (bare t)).1 (baseAndDigits (bare t)).2 =
      some (positional base digits) := by
    rw [hbase]
    exact natural?_eq_positional h.ne_nil h.digit
  rw [literalValue, h.numeral]
  refine magnitude?_eq_some hnatural fun hten => ?_
  have hlength := hvalue.2
  rw [h.numeral, ← hbase, baseAndDigits_ten hten] at hlength
  exact hlength hten

theorem magnitude?_eq_none (h : Shape t base digits) (hvalue : ¬ HasValue t) :
    magnitude? (bare t) = none := by
  cases hmarked : isMarked t with
  | true =>
    obtain ⟨o, hbare, ho⟩ := h.marked hmarked
    rw [hbare]
    exact magnitude?_marked ho digits
  | false =>
    have hbase : baseAndDigits (bare t) = (base, digits) :=
      (radixAndDigits_of_unmarked hmarked).symm.trans h.numeral
    obtain ⟨hten, hlong⟩ := Classical.not_imp.mp fun hlength => hvalue ⟨hmarked, hlength⟩
    rw [h.numeral, ← hbase] at hten hlong
    rw [baseAndDigits_ten hten] at hlong
    exact magnitude?_of_long hten (Nat.lt_of_not_le hlong)

end Shape

open Java.Token (Spelled digitOf)

def digitsOf (cs : List Char) : Text :=
  (cs.map CodePoint.ofChar).filter fun c => decide (c ≠ CodePoint.ofChar '_')

theorem base_of_mem_prefixes {base : Nat} {s : String} (h : (base, s) ∈ Java.Token.prefixes) :
    base = 16 ∨ base = 8 ∨ base = 2 := by
  have hall : ∀ p ∈ Java.Token.prefixes, p.1 = 16 ∨ p.1 = 8 ∨ p.1 = 2 := by decide
  exact hall _ h

theorem baseDigit?_of_spelled {base : Nat} {start digits : List Char}
    (h : Spelled base start digits) {c : Char} (hc : digitOf base c = true) :
    ∃ d, baseDigit? base (CodePoint.ofChar c) = some d := by
  cases h with
  | zero => exact baseDigit?_of_isDigit hc
  | decimal => exact baseDigit?_of_isDigit hc
  | radix hprefix =>
    rcases base_of_mem_prefixes hprefix with rfl | rfl | rfl
    · exact baseDigit?_of_isHexDigit hc
    · exact baseDigit?_of_isOctalDigit hc
    · exact baseDigit?_of_isBinaryDigit hc

theorem digits_of_spelled {base : Nat} {start digits : List Char}
    (h : Spelled base start digits) : ∃ d ds, digits = d :: ds ∧ digitOf base d = true ∧
      ∀ c ∈ ds, digitOf base c = true ∨ c = '_' := by
  cases h with
  | zero => exact ⟨'0', [], rfl, rfl, fun c hc => absurd hc List.not_mem_nil⟩
  | decimal _ hd hds => exact ⟨_, _, rfl, hd, hds⟩
  | radix _ hd hds => exact ⟨_, _, rfl, hd, hds⟩

theorem digitsOf_of_spelled {base : Nat} {start digits : List Char}
    (h : Spelled base start digits) : ∀ c ∈ digitsOf digits, ∃ d, baseDigit? base c = some d := by
  obtain ⟨d, ds, rfl, hd, hds⟩ := digits_of_spelled h
  intro c hc
  obtain ⟨hmem, hlow⟩ := List.mem_filter.mp hc
  obtain ⟨x, hx, rfl⟩ := List.mem_map.mp hmem
  rcases List.mem_cons.mp hx with rfl | hx
  · exact baseDigit?_of_spelled h hd
  · rcases hds x hx with hx | rfl
    · exact baseDigit?_of_spelled h hx
    · exact absurd rfl (of_decide_eq_true hlow)

theorem not_low_of_baseDigit? {base d : Nat} {c : CodePoint} (h : baseDigit? base c = some d) :
    c ≠ '_' := by
  rintro rfl
  cases (baseDigit?_eq_some h).1

theorem digitsOf_cons {base : Nat} {start ds : List Char} {d : Char}
    (h : Spelled base start (d :: ds)) :
    digitsOf (d :: ds) = CodePoint.ofChar d :: digitsOf ds := by
  obtain ⟨_, _, heq, hd, -⟩ := digits_of_spelled h
  obtain ⟨rfl, rfl⟩ := List.cons.inj heq
  obtain ⟨n, hn⟩ := baseDigit?_of_spelled h hd
  exact List.filter_cons_of_pos (decide_eq_true (not_low_of_baseDigit? hn))

theorem not_isSuffix_of_spelled {base : Nat} {start digits : List Char}
    (h : Spelled base start digits) : ∀ c ∈ digits, isSuffix (CodePoint.ofChar c) = false := by
  have hdigit (c : Char) (hc : digitOf base c = true) : isSuffix (CodePoint.ofChar c) = false := by
    obtain ⟨d, hd⟩ := baseDigit?_of_spelled h hc
    exact isLongMark_of_baseDigit? hd
  obtain ⟨d, ds, rfl, hd, hds⟩ := digits_of_spelled h
  refine List.forall_mem_cons.mpr ⟨hdigit d hd, fun c hc => ?_⟩
  rcases hds c hc with hc | rfl
  · exact hdigit c hc
  · rfl

theorem isLong_of_spelled {base : Nat} {start digits mark : List Char}
    (h : Spelled base start digits) (hmark : mark ∈ [[], ['l'], ['L']]) :
    isLong ((start ++ digits ++ mark).map CodePoint.ofChar) = !mark.isEmpty := by
  have hlong (c : Char) (hc : isSuffix (CodePoint.ofChar c) = true) :
      isLong ((start ++ digits ++ [c]).map CodePoint.ofChar) = true := by
    rw [isLong, List.map_append, List.map_singleton, List.getLast?_concat]
    exact hc
  simp only [List.mem_cons, List.not_mem_nil, or_false] at hmark
  rcases hmark with rfl | rfl | rfl
  · obtain ⟨d, ds, rfl, -⟩ := digits_of_spelled h
    have hlast : (start ++ d :: ds).getLast? =
        some ((d :: ds).getLast (List.cons_ne_nil d ds)) := by
      rw [List.getLast?_append_of_ne_nil _ (List.cons_ne_nil d ds)]
      exact List.getLast?_eq_some_getLast _
    rw [List.append_nil, isLong, List.getLast?_map, hlast]
    exact not_isSuffix_of_spelled h _ (List.getLast_mem _)
  · exact hlong 'l' rfl
  · exact hlong 'L' rfl

theorem filter_start {base : Nat} {start digits : List Char} (h : Spelled base start digits) :
    digitsOf start = start.map CodePoint.ofChar := by
  have hall : ∀ p ∈ Java.Token.prefixes, digitsOf p.2.toList = p.2.toList.map CodePoint.ofChar := by
    decide
  cases h with
  | zero => rfl
  | decimal => rfl
  | radix hprefix => exact hall _ hprefix

theorem bare_of_spelled {base : Nat} {start digits mark : List Char}
    (h : Spelled base start digits) (hmark : mark ∈ [[], ['l'], ['L']]) :
    bare ((start ++ digits ++ mark).map CodePoint.ofChar) =
      start.map CodePoint.ofChar ++ digitsOf digits := by
  have happend : digitsOf (start ++ digits) = start.map CodePoint.ofChar ++ digitsOf digits := by
    rw [← filter_start h, digitsOf, List.map_append, List.filter_append]
    rfl
  rw [bare, isLong_of_spelled h hmark, bareLiteral, ← happend, digitsOf]
  simp only [List.mem_cons, List.not_mem_nil, or_false] at hmark
  rcases hmark with rfl | rfl | rfl
  · rw [List.append_nil]
    rfl
  · rw [List.map_append, List.map_singleton, List.isEmpty_cons, Bool.not_false, if_pos rfl,
      List.dropLast_concat]
  · rw [List.map_append, List.map_singleton, List.isEmpty_cons, Bool.not_false, if_pos rfl,
      List.dropLast_concat]

theorem not_isOctalMark_of_baseDigit? {base d : Nat} {c : CodePoint}
    (h : baseDigit? base c = some d) : isOctalMark c = false := by
  simp only [isOctalMark, Bool.or_eq_false_iff, decide_eq_false_iff_not]
  constructor
  · rintro rfl
    cases (baseDigit?_eq_some h).1
  · rintro rfl
    cases (baseDigit?_eq_some h).1

theorem radixAndDigits_decimal {z : CodePoint} (hz : z ≠ '0') (rest : Text) :
    radixAndDigits (z :: rest) = (10, z :: rest) := by
  cases rest with
  | nil => rfl
  | cons c rest => rw [radixAndDigits, if_neg (fun h => hz h.1), baseAndDigits, if_neg hz]

theorem radixAndDigits_octal {c : CodePoint} {d : Nat} (hc : baseDigit? 8 c = some d)
    (rest : Text) : radixAndDigits ('0' :: c :: rest) = (8, c :: rest) := by
  obtain ⟨hd, hlt⟩ := baseDigit?_eq_some hc
  have hne : ∀ x : CodePoint, x.hexDigit?.all (8 ≤ ·) = true → c ≠ x := by
    rintro x hx rfl
    rw [hd, Option.all_some, decide_eq_true_eq] at hx
    exact absurd hlt (Nat.not_lt_of_le hx)
  rw [radixAndDigits, not_isOctalMark_of_baseDigit? hc, if_neg (fun h => Bool.false_ne_true h.2),
    baseAndDigits, if_pos rfl, if_neg (not_or.mpr ⟨hne _ rfl, hne _ rfl⟩),
    if_neg (not_or.mpr ⟨hne _ rfl, hne _ rfl⟩)]

theorem radixAndDigits_of_spelled {base : Nat} {start digits : List Char}
    (h : Spelled base start digits) :
    radixAndDigits (start.map CodePoint.ofChar ++ digitsOf digits) = (base, digitsOf digits) ∧
    ((start.map CodePoint.ofChar ++ digitsOf digits)[1]?.any isOctalMark = true →
      ∃ o : CodePoint, start.map CodePoint.ofChar = (['0', o] : Text) ∧ isOctalMark o = true) := by
  have hdigit := digitsOf_of_spelled h
  have hunmarked : ∀ c ∈ digitsOf digits, isOctalMark c = false := by
    intro c hc
    obtain ⟨n, hn⟩ := hdigit c hc
    exact not_isOctalMark_of_baseDigit? hn
  cases h with
  | zero => exact ⟨rfl, fun h => by cases h⟩
  | @decimal d ds hzero hd hds =>
    have hcons := digitsOf_cons (.decimal hzero hd hds)
    rw [List.map_nil, List.nil_append]
    refine ⟨?_, fun hmark => ?_⟩
    · rw [hcons]
      exact radixAndDigits_decimal (fun h => hzero (Glyph.ofChar_injective h)) _
    · obtain ⟨c, hc, hmark⟩ := (Option.any_eq_true _ _).mp hmark
      rw [hunmarked c (List.mem_of_getElem? hc)] at hmark
      cases hmark
  | @radix base s d ds hprefix hd hds =>
    have hcons := digitsOf_cons (.radix hprefix hd hds)
    simp only [Java.Token.prefixes, List.mem_cons, List.not_mem_nil, or_false,
      Prod.mk.injEq] at hprefix
    rcases hprefix with ⟨rfl, rfl⟩ | ⟨rfl, rfl⟩ | ⟨rfl, rfl⟩ | ⟨rfl, rfl⟩ | ⟨rfl, rfl⟩ |
      ⟨rfl, rfl⟩ | ⟨rfl, rfl⟩
    · exact ⟨rfl, fun h => by cases h⟩
    · exact ⟨rfl, fun h => by cases h⟩
    · exact ⟨rfl, fun _ => ⟨_, rfl, rfl⟩⟩
    · exact ⟨rfl, fun _ => ⟨_, rfl, rfl⟩⟩
    · have hmem : CodePoint.ofChar d ∈ digitsOf (d :: ds) := hcons ▸ List.mem_cons_self
      obtain ⟨n, hn⟩ := hdigit _ hmem
      refine ⟨?_, fun hmark => ?_⟩
      · rw [hcons]
        exact radixAndDigits_octal hn _
      · rw [hcons] at hmark
        have hfalse : isOctalMark (CodePoint.ofChar d) = true := hmark
        rw [hunmarked _ hmem] at hfalse
        cases hfalse
    · exact ⟨rfl, fun h => by cases h⟩
    · exact ⟨rfl, fun h => by cases h⟩

theorem shape_of_spelled {base : Nat} {start digits mark : List Char}
    (h : Spelled base start digits) (hmark : mark ∈ [[], ['l'], ['L']]) :
    Shape ((start ++ digits ++ mark).map CodePoint.ofChar) base (digitsOf digits) where
  ne_nil := by
    obtain ⟨d, ds, rfl, -⟩ := digits_of_spelled h
    rw [digitsOf_cons h]
    exact List.cons_ne_nil _ _
  digit := digitsOf_of_spelled h
  suffix := by
    rw [bare_of_spelled h hmark]
    exact List.suffix_append _ _
  numeral := by
    rw [numeral, bare_of_spelled h hmark]
    exact (radixAndDigits_of_spelled h).1
  marked := by
    intro hmarked
    rw [isMarked, bare_of_spelled h hmark] at hmarked
    obtain ⟨o, hstart, ho⟩ := (radixAndDigits_of_spelled h).2 hmarked
    refine ⟨o, ?_, ho⟩
    rw [bare_of_spelled h hmark, hstart]
    rfl

theorem IsInteger.shape {t : Text} (h : IsInteger t) : ∃ base digits, Shape t base digits := by
  obtain ⟨g, rest, n, hkind, htext⟩ := h
  obtain ⟨base, start, digits, mark, hspelled, hmark, hglyphs⟩ :=
    Java.Token.spelled_of_integer hkind
  rw [hglyphs, Glyph.text_chars] at htext
  obtain rfl := Except.ok.inj htext
  exact ⟨base, digitsOf digits, shape_of_spelled hspelled hmark⟩

/-- A literal of the grammar that has a value denotes it. -/
theorem IsInteger.integer?_eq {t : Text} (h : IsInteger t) (hvalue : HasValue t) :
    integer? t = some (isLong t, literalValue t) := by
  obtain ⟨base, digits, hshape⟩ := h.shape
  rw [hshape.integer?_eq, hshape.magnitude?_eq hvalue, Option.map_some]

theorem IsInteger.integer?_eq_none {t : Text} (h : IsInteger t) (hvalue : ¬ HasValue t) :
    integer? t = none := by
  obtain ⟨base, digits, hshape⟩ := h.shape
  rw [hshape.integer?_eq, hshape.magnitude?_eq_none hvalue, Option.map_none]

end LookupGen.Literal
