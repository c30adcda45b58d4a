import LookupGen.Program.Evaluate
import LookupGen.Proofs.Literal.Positional
import Mathlib.Data.Int.ModEq

/-!
# Integer arithmetic

An expression of integers that refers to no field has the value that it has over the integers, cut
to the width of its type once. A part of type `int` is cut to 32 bits before it takes part in a
`long`.

An expression with a literal that has no value is no constant.
-/

namespace LookupGen.Program

open Java (Expr UnaryOp)
open Literal (IsInteger HasValue literalValue)

/-- Built from integer literals and literals of one character by parentheses, signs, complements and
sums. -/
inductive Arithmetic : Expr → Prop where
  | integer {t : Text} : IsInteger t → Arithmetic (.integer (.ok t))
  | character {t : Text} {c : CodePoint} :
      Literal.decode (unquote 1 t) = [c] → Arithmetic (.character (.ok t))
  | paren {e : Expr} : Arithmetic e → Arithmetic (.paren e)
  | unary {op : UnaryOp} {e : Expr} : op ≠ .negation → Arithmetic e → Arithmetic (.unary op e)
  | plus {a b : Expr} : Arithmetic a → Arithmetic b → Arithmetic (.plus a b)

def isCharacter : Expr → Bool
  | .character _ => true
  | .paren e => isCharacter e
  | _ => false

def hasLong : Expr → Bool
  | .integer (.ok t) => Literal.isLong t
  | .paren e => hasLong e
  | .unary _ e => hasLong e
  | .plus a b => hasLong a || hasLong b
  | _ => false

def Valued : Expr → Prop
  | .integer (.ok t) => HasValue t
  | .paren e => Valued e
  | .unary _ e => Valued e
  | .plus a b => Valued a ∧ Valued b
  | _ => True

def exactUnary (op : UnaryOp) (n : Int) : Int :=
  match op with
  | .minus => -n
  | .complement => -n - 1
  | _ => n

def exact : Expr → Int
  | .integer (.ok t) => literalValue t
  | .character (.ok t) => ((Literal.decode (unquote 1 t)).head?.elim 0 (·.val) : Nat)
  | .paren e => exact e
  | .unary op e => exactUnary op (exact e)
  | .plus a b => exact a + exact b
  | _ => 0

/-- The value over the integers in which each part of type `int` counts with its 32 bits. -/
def staged (e : Expr) : Int :=
  if hasLong e then
    match e with
    | .integer (.ok t) => literalValue t
    | .paren e => staged e
    | .unary op e => exactUnary op (staged e)
    | .plus a b => staged a + staged b
    | _ => 0
  else (exact e).bmod (2 ^ 32)

/-- The number of so many bits in two's complement that agrees with an integer. -/
structure IsCut (bits : Nat) (exact n : Int) : Prop where
  low : -2 ^ (bits - 1) ≤ n
  high : n < 2 ^ (bits - 1)
  modEq : n ≡ exact [ZMOD 2 ^ bits]

def cut (e : Expr) : Int := if hasLong e then (staged e).bmod (2 ^ 64) else (exact e).bmod (2 ^ 32)

/-- The constant of a type that is wide enough. -/
def cutConstant (e : Expr) : Constant := if hasLong e then .long (cut e) else .int (cut e)

theorem staged_of_int {e : Expr} (h : hasLong e = false) : staged e = (exact e).bmod (2 ^ 32) := by
  rw [staged.eq_def, h, if_neg Bool.false_ne_true]

theorem cut_of_int {e : Expr} (h : hasLong e = false) : cut e = (exact e).bmod (2 ^ 32) := by
  rw [cut, h, if_neg Bool.false_ne_true]

theorem cut_bmod (e : Expr) : (cut e).bmod (2 ^ 64) = (staged e).bmod (2 ^ 64) := by
  cases h : hasLong e with
  | true => rw [cut, h, if_pos rfl, Int.bmod_bmod]
  | false => rw [cut_of_int h, staged_of_int h]

theorem exactUnary_bmod {m : Nat} (op : UnaryOp) {x y : Int} (h : x.bmod m = y.bmod m) :
    (exactUnary op x).bmod m = (exactUnary op y).bmod m := by
  have hneg : (-x).bmod m = (-y).bmod m := by rw [← Int.bmod_neg_bmod, h, Int.bmod_neg_bmod]
  cases op with
  | minus => exact hneg
  | complement =>
    change (-x - 1).bmod m = (-y - 1).bmod m
    rw [← Int.bmod_sub_bmod, hneg, Int.bmod_sub_bmod]
  | plus => exact h
  | negation => exact h

theorem add_bmod_of_eq {m : Nat} {w x y z : Int} (h : w.bmod m = x.bmod m)
    (h' : y.bmod m = z.bmod m) : (w + y).bmod m = (x + z).bmod m := by
  rw [Int.add_bmod, h, h', ← Int.add_bmod]

/-- The operators of the code cut every number, which is no more than cutting the last one. -/
theorem ofNumber_of_long {e : Expr} {n : Int} (hlong : hasLong e = true)
    (h : n.bmod (2 ^ 64) = (staged e).bmod (2 ^ 64)) :
    Constant.ofNumber (hasLong e) n = cutConstant e := by
  rw [cutConstant, cut, hlong, if_pos rfl, if_pos rfl, ← h]
  rfl

theorem ofNumber_of_int {e : Expr} {n : Int} (hint : hasLong e = false)
    (h : n.bmod (2 ^ 32) = (exact e).bmod (2 ^ 32)) :
    Constant.ofNumber (hasLong e) n = cutConstant e := by
  rw [cutConstant, cut_of_int hint, hint, if_neg Bool.false_ne_true, ← h]
  rfl

theorem ofNumber_integer {t : Text} :
    Constant.ofNumber (Literal.isLong t) (literalValue t) = cutConstant (.integer (.ok t)) := by
  have hhas : hasLong (.integer (.ok t)) = Literal.isLong t := rfl
  rw [← hhas]
  cases h : hasLong (.integer (.ok t)) with
  | true =>
    rw [← h]
    refine ofNumber_of_long h ?_
    rw [staged.eq_def, h, if_pos rfl]
  | false =>
    rw [← h]
    exact ofNumber_of_int h rfl

theorem ofNumber_plus (a b : Expr) :
    Constant.ofNumber (hasLong a || hasLong b) (cut a + cut b) = cutConstant (.plus a b) := by
  have hhas : hasLong (.plus a b) = (hasLong a || hasLong b) := rfl
  rw [← hhas]
  cases h : hasLong (.plus a b) with
  | true =>
    rw [← h]
    refine ofNumber_of_long h ?_
    rw [staged.eq_def, h, if_pos rfl]
    exact add_bmod_of_eq (cut_bmod a) (cut_bmod b)
  | false =>
    obtain ⟨ha, hb⟩ := Bool.or_eq_false_iff.mp h
    rw [← h]
    refine ofNumber_of_int h ?_
    rw [cut_of_int ha, cut_of_int hb]
    exact add_bmod_of_eq Int.bmod_bmod Int.bmod_bmod

theorem ofNumber_unary (op : UnaryOp) (e : Expr) :
    Constant.ofNumber (hasLong e) (exactUnary op (cut e)) = cutConstant (.unary op e) := by
  have hhas : hasLong (.unary op e) = hasLong e := rfl
  rw [← hhas]
  cases h : hasLong (.unary op e) with
  | true =>
    rw [← h]
    refine ofNumber_of_long h ?_
    rw [staged.eq_def, h, if_pos rfl]
    exact exactUnary_bmod op (cut_bmod e)
  | false =>
    rw [← h]
    refine ofNumber_of_int h (exactUnary_bmod op ?_)
    rw [cut_of_int (hhas ▸ h), Int.bmod_bmod]

/-- The constant is the value of the expression. Only a bare character is not of a number type. -/
structure Yields (e : Expr) (c : Constant) : Prop where
  number : c.number? = .ok (some (hasLong e, cut e))
  numeric : c.isNumeric = true
  eq_cut : isCharacter e = false → c = cutConstant e

theorem yields_cutConstant (e : Expr) : Yields e (cutConstant e) := by
  unfold cutConstant
  refine ⟨?_, ?_, fun _ => rfl⟩
  · cases hasLong e with
    | true => rfl
    | false => rfl
  · cases hasLong e with
    | true => rfl
    | false => rfl

theorem not_isString_of_isNumeric {c : Constant} (h : c.isNumeric = true) : c.isString = false := by
  cases c with
  | string t => cases h
  | boolean | character | int | long => rfl

theorem Yields.plus {a b : Expr} {c d : Constant} (hc : Yields a c) (hd : Yields b d) :
    c.plus d = .ok (some (cutConstant (.plus a b))) := by
  have hcstring := not_isString_of_isNumeric hc.numeric
  have hdstring := not_isString_of_isNumeric hd.numeric
  rw [Constant.plus, hcstring, hdstring, if_neg (by decide), hc.numeric, hd.numeric,
    if_pos (by decide), hc.number, hd.number, ← ofNumber_plus]
  rfl

theorem Yields.unary {e : Expr} {c : Constant} {op : UnaryOp} (hop : op ≠ .negation)
    (hc : Yields e c) : applyUnary op c = .ok (some (cutConstant (.unary op e))) := by
  have hmap : applyUnary op c = c.mapNumber (exactUnary op) := by
    cases op with
    | negation => exact absurd rfl hop
    | plus | minus | complement => rfl
  rw [hmap, ← ofNumber_unary, Constant.mapNumber, hc.number]
  rfl

theorem yields_character {t : Text} {c : CodePoint} (h : Literal.decode (unquote 1 t) = [c]) :
    Yields (.character (.ok t)) (characterConstant t) := by
  have hexact : exact (.character (.ok t)) = c.val := by
    rw [exact, h]
    rfl
  have hcut : cut (.character (.ok t)) = c.val := by
    rw [cut_of_int rfl, hexact]
    exact Int.bmod_eq_of_le (by omega) (by omega)
  refine ⟨?_, rfl, fun hcharacter => ?_⟩
  · rw [hcut, characterConstant, h]
    rfl
  · cases hcharacter

theorem cut_paren (e : Expr) : cut (.paren e) = cut e := by
  have hhas : hasLong (.paren e) = hasLong e := rfl
  cases h : hasLong e with
  | true => rw [cut, cut, staged.eq_def, hhas, h, if_pos rfl, if_pos rfl, if_pos rfl]
  | false => rw [cut_of_int h, cut_of_int (hhas.trans h), exact]

theorem Yields.paren {e : Expr} {c : Constant} (h : Yields e c) : Yields (.paren e) c where
  number := by
    rw [cut_paren]
    exact h.number
  numeric := h.numeric
  eq_cut := by
    intro hcharacter
    rw [cutConstant, cut_paren]
    exact h.eq_cut hcharacter

section

variable {m : Type → Type} [Monad m] [LawfulMonad m] [MonadExceptOf EvalError m]
variable (p : Program) (demand : FieldRef → m (Option Constant)) (site : Site)

theorem evaluate_arithmetic {e : Expr} (he : Arithmetic e) :
    (Valued e → ∃ c, Yields e c ∧ p.evaluate demand site e = pure (some c)) ∧
    (¬ Valued e → p.evaluate demand site e = pure none) := by
  induction he with
  | @integer t ht =>
    have hevaluate : p.evaluate demand site (.integer (.ok t)) = pure (integerConstant? t) :=
      pure_bind _ _
    rw [hevaluate]
    refine ⟨fun hvalue => ⟨_, yields_cutConstant _, ?_⟩, fun hvalue => ?_⟩
    · rw [integerConstant?, ht.integer?_eq hvalue, ← ofNumber_integer]
      rfl
    · rw [integerConstant?, ht.integer?_eq_none hvalue]
      rfl
  | @character t c hc =>
    refine ⟨fun _ => ⟨_, yields_character hc, pure_bind _ _⟩, fun hvalue => absurd trivial hvalue⟩
  | @paren e _ ih =>
    refine ⟨fun hvalue => ?_, ih.2⟩
    obtain ⟨c, hc, hevaluate⟩ := ih.1 hvalue
    exact ⟨c, hc.paren, hevaluate⟩
  | @unary op e hop _ ih =>
    refine ⟨fun hvalue => ?_, fun hvalue => ?_⟩
    · obtain ⟨c, hc, hevaluate⟩ := ih.1 hvalue
      refine ⟨_, yields_cutConstant _, ?_⟩
      rw [evaluate, hevaluate, pure_bind]
      simp only
      rw [hc.unary hop]
      rfl
    · rw [evaluate, ih.2 hvalue, pure_bind]
  | @plus a b _ _ iha ihb =>
    by_cases ha : Valued a
    · obtain ⟨c, hc, hleft⟩ := iha.1 ha
      refine ⟨fun hvalue => ?_, fun hvalue => ?_⟩
      · obtain ⟨d, hd, hright⟩ := ihb.1 hvalue.2
        refine ⟨_, yields_cutConstant _, ?_⟩
        rw [evaluate, hleft, pure_bind]
        simp only
        rw [hright, pure_bind]
        simp only
        rw [hc.plus hd]
        rfl
      · have hb : ¬ Valued b := fun hb => hvalue ⟨ha, hb⟩
        rw [evaluate, hleft, pure_bind]
        simp only
        rw [ihb.2 hb, pure_bind]
    · refine ⟨fun hvalue => absurd hvalue.1 ha, fun _ => ?_⟩
      rw [evaluate, iha.2 ha, pure_bind]

end

theorem two_pow_bits {bits : Nat} (hbits : 0 < bits) : (2 : Int) ^ bits = 2 * 2 ^ (bits - 1) := by
  rw [← Int.pow_succ', Nat.sub_add_cancel hbits]

theorem isCut_bmod (bits : Nat) (hbits : 0 < bits) (n : Int) :
    IsCut bits n (n.bmod (2 ^ bits)) := by
  have hpos : 0 < 2 ^ bits := Nat.pow_pos (by decide)
  have hpow : ((2 ^ bits : Nat) : Int) = 2 * 2 ^ (bits - 1) := by
    rw [← two_pow_bits hbits, Int.natCast_pow]
    rfl
  have hlow := Int.le_bmod (x := n) hpos
  have hhigh := Int.bmod_lt (x := n) hpos
  have hmod := Int.bmod_emod (x := n) (m := 2 ^ bits)
  rw [hpow] at hlow hhigh
  rw [Int.natCast_pow] at hmod
  exact ⟨by omega, by omega, hmod⟩

theorem IsCut.unique {bits : Nat} {exact n k : Int} (hbits : 0 < bits)
    (h : IsCut bits exact n) (h' : IsCut bits exact k) : n = k := by
  have hlow := h.low
  have hhigh := h.high
  have hlow' := h'.low
  have hhigh' := h'.high
  have hzero : n - k = 0 := by
    refine Int.eq_zero_of_abs_lt_dvd (h'.modEq.trans h.modEq.symm).dvd ?_
    rw [two_pow_bits hbits, abs_lt]
    omega
  omega

theorem constant_exact {e : Expr} (he : Arithmetic e) (hcharacter : isCharacter e = false)
    (p : Program) (site : Site) :
    (Valued e → hasLong e = false → ∃ n, p.constantAt site e = pure (some (.int n)) ∧
      IsCut 32 (exact e) n ∧ ∀ k, IsCut 32 (exact e) k → k = n) ∧
    (Valued e → hasLong e = true → ∃ n, p.constantAt site e = pure (some (.long n)) ∧
      IsCut 64 (staged e) n ∧ ∀ k, IsCut 64 (staged e) k → k = n) ∧
    (¬ Valued e → p.constantAt site e = pure none) := by
  obtain ⟨hsome, hnone⟩ := evaluate_arithmetic p p.constant site he
  refine ⟨fun hvalue hint => ?_, fun hvalue hlong => ?_, hnone⟩
  · obtain ⟨c, hc, hevaluate⟩ := hsome hvalue
    obtain rfl := hc.eq_cut hcharacter
    rw [cutConstant, hint, if_neg Bool.false_ne_true, cut_of_int hint] at hevaluate
    have hcut := isCut_bmod 32 (by decide) (exact e)
    exact ⟨_, hevaluate, hcut, fun k hk => hk.unique (by decide) hcut⟩
  · obtain ⟨c, hc, hevaluate⟩ := hsome hvalue
    obtain rfl := hc.eq_cut hcharacter
    rw [cutConstant, cut, hlong, if_pos rfl, if_pos rfl] at hevaluate
    have hcut := isCut_bmod 64 (by decide) (staged e)
    exact ⟨_, hevaluate, hcut, fun k hk => hk.unique (by decide) hcut⟩

/-- The complement of a sum that leaves `int`, in a `long` sum. -/
def complementInLong : Expr :=
  .plus
    (.unary .complement
      (.paren (.plus (.integer (.ok "0x7FFF_FFFF")) (.character (.ok "'a'")))))
    (.integer (.ok "1L"))

theorem constant_exact_promoted :
    Arithmetic complementInLong ∧ isCharacter complementInLong = false ∧
    Valued complementInLong ∧ hasLong complementInLong = true ∧
    ∀ (p : Program) (site : Site),
      p.constantAt site complementInLong = pure (some (.long 2147483552)) := by
  have hhex : IsInteger "0x7FFF_FFFF" :=
    ⟨.char '0', ("x7FFF_FFFF + 1".toList.map .char), 10, by decide +kernel, by decide +kernel⟩
  have hlong : IsInteger "1L" :=
    ⟨.char '1', ("L;".toList.map .char), 1, by decide +kernel, by decide +kernel⟩
  have hcharacter : Literal.decode (unquote 1 "'a'") = "a" := by decide +kernel
  have harithmetic : Arithmetic complementInLong :=
    .plus (.unary (by decide) (.paren (.plus (.integer hhex) (.character hcharacter))))
      (.integer hlong)
  have hvalued : Valued complementInLong :=
    ⟨⟨⟨by decide +kernel, by decide +kernel⟩, trivial⟩, by decide +kernel, by decide +kernel⟩
  refine ⟨harithmetic, rfl, hvalued, by decide +kernel, fun p site => ?_⟩
  obtain ⟨n, hconstant, -, hunique⟩ :=
    (constant_exact harithmetic rfl p site).2.1 hvalued (by decide +kernel)
  have hcut : IsCut 64 (staged complementInLong) 2147483552 :=
    ⟨by decide, by decide, by decide +kernel⟩
  rw [hconstant, ← hunique _ hcut]

/-- An octal literal with a letter after its zero is accepted, but has no value. -/
theorem constant_of_marked_octal :
    Arithmetic (.integer (.ok "0o17")) ∧ hasLong (.integer (.ok "0o17")) = false ∧
    exact (.integer (.ok "0o17")) = 15 ∧
    ∀ (p : Program) (site : Site), p.constantAt site (.integer (.ok "0o17")) = pure none ∧
      ¬ ∃ n, p.constantAt site (.integer (.ok "0o17")) = pure (some (.int n)) := by
  have hoctal : IsInteger "0o17" :=
    ⟨.char '0', ("o17;".toList.map .char), 3, by decide +kernel, by decide +kernel⟩
  refine ⟨.integer hoctal, by decide +kernel, by decide +kernel, fun p site => ?_⟩
  have hnone : p.constantAt site (.integer (.ok "0o17")) = pure none := rfl
  refine ⟨hnone, ?_⟩
  rintro ⟨n, hsome⟩
  rw [hnone] at hsome
  cases congrFun hsome EvalState.empty

end LookupGen.Program
