import LookupGen.Proofs.Program.Constants
import LookupGen.Proofs.Text.Pairs

/-!
# Strings of a program

Which strings come from expressions and fields. What a literal decodes to has every UTF-16 pair in
it joined; a sum keeps that unless one half of a pair ends its left operand and the other half
starts the right one, and nothing joins them later.
-/

namespace LookupGen

open EvalM (answer after)
open Utf16 (Joined splits)

namespace Constant

theorem joined_literal (body : Text) : Joined (Literal.decode body) := Utf16.joined_joinPairs _

theorem joined_stringConstant (literal : Text) : Joined (stringConstant literal).toText := by
  unfold stringConstant
  split
  · exact joined_literal _
  · exact joined_literal _

theorem joined_ofString (s : String) : Joined (Text.ofString s) :=
  Utf16.joined_of_not_hasSurrogate (Text.hasSurrogate_ofString s)

theorem joined_boolean (b : Bool) : Joined (Constant.boolean b).toText := by
  cases b with
  | false => exact joined_ofString "false"
  | true => exact joined_ofString "true"

theorem joined_ofNumber (isLong : Bool) (n : Int) : Joined (ofNumber isLong n).toText := by
  cases isLong with
  | false => exact joined_ofString _
  | true => exact joined_ofString _

variable {a b c : Constant}

theorem plus_eq_some (h : a.plus b = .ok (some c)) :
    c = .string (a.toText ++ b.toText) ∧ (a.isString || b.isString) = true ∨
    a.isString = false ∧ b.isString = false ∧ ∃ isLong n, c = ofNumber isLong n := by
  unfold plus at h
  split at h
  · rename_i hstring
    obtain rfl := Option.some.inj (Except.ok.inj h)
    exact .inl ⟨rfl, hstring⟩
  · rename_i hstring
    right
    have hnone := Bool.or_eq_false_iff.mp (Bool.eq_false_iff.mpr hstring)
    refine ⟨hnone.1, hnone.2, ?_⟩
    split at h
    · obtain ⟨x, -, h⟩ := bind_eq_ok.mp h
      obtain ⟨y, -, h⟩ := bind_eq_ok.mp h
      split at h
      · obtain rfl := Option.some.inj (Except.ok.inj h)
        exact ⟨_, _, rfl⟩
      · cases h
    · cases h

theorem mapNumber_eq_some {f : Int → Int} (h : a.mapNumber f = .ok (some c)) :
    a.isString = false ∧ ∃ isLong n, c = ofNumber isLong n := by
  obtain ⟨x, hx, h⟩ := bind_eq_ok.mp h
  split at h
  · obtain rfl := Option.some.inj (Except.ok.inj h)
    refine ⟨?_, _, _, rfl⟩
    cases a with
    | string t => cases hx
    | boolean b | character t | int n | long n => rfl
  · cases h

theorem applyUnary_eq_some {op : Java.UnaryOp} (h : applyUnary op a = .ok (some c)) :
    a.isString = false ∧ Joined c.toText := by
  have hnumber {f : Int → Int} (h : a.mapNumber f = .ok (some c)) :
      a.isString = false ∧ Joined c.toText := by
    obtain ⟨ha, isLong, n, rfl⟩ := mapNumber_eq_some h
    exact ⟨ha, joined_ofNumber isLong n⟩
  cases op with
  | negation =>
    cases a with
    | boolean b =>
      obtain rfl := Option.some.inj (Except.ok.inj h)
      exact ⟨rfl, joined_boolean _⟩
    | string t | character t | int n | long n => cases h
  | plus | minus | complement => exact hnumber h

end Constant

/-- The evaluation, but that a sum has no value if its text would have half of a pair from either
operand next to each other. -/
def Semantics.seamless : Semantics Constant :=
  { Semantics.reading with
    plus := fun a b => (Semantics.reading.plus a b).filter fun c =>
      !(c.isString && splits a.toText b.toText) }

namespace Program

variable {p : Program} {q : Query} {a b c : Constant}

theorem seamless_plus_iff :
    Semantics.seamless.plus a b = some c ↔ Semantics.reading.plus a b = some c ∧
      (c.isString = true → splits a.toText b.toText = false) := by
  change (Semantics.reading.plus a b).filter _ = some c ↔ _
  rw [Option.filter_eq_some_iff]
  cases c.isString with
  | false => simp
  | true => simp

theorem reading_declare {type : Name} (h : Semantics.reading.declare type a = some c) : a = c := by
  simp only [Semantics.reading] at h
  split at h
  · exact Option.some.inj h
  · cases h

theorem Derives.joined_of_seamless (h : p.Derives .seamless q c) : Joined c.toText := by
  induction h with
  | string h =>
    obtain rfl := Option.some.inj h
    exact Constant.joined_stringConstant _
  | character h =>
    obtain rfl := Option.some.inj h
    exact Constant.joined_literal _
  | integer h =>
    obtain ⟨⟨isLong, n⟩, -, rfl⟩ := Option.map_eq_some_iff.mp h
    exact Constant.joined_ofNumber isLong n
  | boolean b => exact Constant.joined_boolean b
  | paren _ ih => exact ih
  | plus _ _ h ihl ihr =>
    obtain ⟨h, hseam⟩ := seamless_plus_iff.mp h
    rcases Constant.plus_eq_some (toOption_join_eq_some.mp h) with ⟨rfl, -⟩ | ⟨-, -, isLong, n, rfl⟩
    · exact Utf16.joined_append.mpr ⟨ihl, ihr, hseam rfl⟩
    · exact Constant.joined_ofNumber isLong n
  | unary _ h _ => exact (Constant.applyUnary_eq_some (toOption_join_eq_some.mp h)).2
  | name _ _ ih | qualified _ _ ih => exact ih
  | field _ _ _ _ _ h ih =>
    obtain rfl := reading_declare h
    exact ih

theorem Derives.seamless_of_joined (h : p.Derives .reading q c)
    (hc : c.isString = true → Joined c.toText) : p.Derives .seamless q c := by
  -- By induction on the derivation: the operands of a sum that is a string are parts of it, so no
  -- pair is split in them either; and no string is an operand of anything else.
  induction h with
  | string h => exact .string h
  | character h => exact .character h
  | integer h => exact .integer h
  | boolean b => exact @Derives.boolean _ .seamless p _ b
  | paren _ ih => exact .paren (ih hc)
  | plus _ _ h ihl ihr =>
    rcases Constant.plus_eq_some (toOption_join_eq_some.mp h) with
      ⟨rfl, -⟩ | ⟨ha, hb, isLong, n, rfl⟩
    · obtain ⟨hleft, hright, hseam⟩ := Utf16.joined_append.mp (hc rfl)
      exact .plus (ihl fun _ => hleft) (ihr fun _ => hright)
        (seamless_plus_iff.mpr ⟨h, fun _ => hseam⟩)
    · apply Derives.plus (ihl (by simp [ha])) (ihr (by simp [hb]))
      apply seamless_plus_iff.mpr ⟨h, _⟩
      intro hstring
      cases isLong with
      | false => cases hstring
      | true => cases hstring
  | unary _ h ih =>
    have ha := (Constant.applyUnary_eq_some (toOption_join_eq_some.mp h)).1
    exact .unary (ih (by simp [ha])) h
  | name hf _ ih => exact .name hf (ih hc)
  | qualified hf _ ih => exact .qualified hf (ih hc)
  | field hfinal hdimensions hinit htype _ h ih =>
    obtain rfl := reading_declare h
    exact .field hfinal hdimensions hinit htype (ih hc) h

/-- What is answered for an expression at a place, or for a field. -/
def ask (p : Program) : Query → EvalM (Option Constant)
  | .expr site e => p.constantAt site e
  | .field f => p.constant f

def Asks (p : Program) : Query → Prop
  | .expr site _ => p.HasSite site
  | .field f => f ∈ p.fields

/-- Whatever was asked before, an answer is a constant just where there is a derivation of it. -/
theorem ask_answers (hp : p.WellScoped) {s : EvalState} (hs : p.Remembers [] s) (hq : p.Asks q) :
    p.Remembers [] (after (p.ask q) s) ∧
      ∀ c, answer (p.ask q) s = .ok (some c) ↔ p.Derives .reading q c := by
  cases q with
  | field f =>
    obtain ⟨hafter, hanswer⟩ := constant_follows hp hq s hs
    refine ⟨hafter, ?_⟩
    intro c
    rw [← alone_eq_some_iff hp hq, ← Settled.unique hanswer (settled_alone hp hq)]
    rfl
  | expr site e =>
    obtain ⟨hafter, hanswer⟩ := constantAt_follows hp hq e s hs
    refine ⟨hafter, ?_⟩
    intro c
    constructor
    · intro h
      obtain ⟨n, hn⟩ := hanswer.exists
      exact derives_of_evaluate (fun _ _ hg => derives_of_constantTo hg) (hn.trans h)
    · intro h
      obtain ⟨n, hn, hn'⟩ := (hanswer.and h.eventually).exists
      exact hn.symm.trans hn'

/-- A string has a pair in it that is split just where a sum that it comes from has a seam in the
middle of one. Otherwise it is the only such text with its UTF-16 units, and it has a UTF-8 form if
they are well formed. -/
theorem string_joined_iff (hp : p.Built) {s : EvalState} (hs : p.Remembers [] s) (hq : p.Asks q)
    {t : Text} (h : answer (p.ask q) s = .ok (some (.string t))) :
    p.Remembers [] (after (p.ask q) s) ∧
    (Joined t ↔ p.Derives .seamless q (.string t)) ∧
    (Joined t ↔ ∀ u, Joined u → Utf16.units u = Utf16.units t → u = t) ∧
    (Utf16.WellFormed (Utf16.units t) → ((∃ bytes, Utf8.encode t = .ok bytes) ↔ Joined t)) := by
  obtain ⟨hafter, hanswer⟩ := ask_answers hp.wellScoped hs hq
  have hderives := (hanswer _).mp h
  refine ⟨hafter, ?_, Utf16.joined_iff_unique, Utf16.encode_isOk_iff_joined⟩
  exact ⟨fun ht => hderives.seamless_of_joined fun _ => ht, fun ht => ht.joined_of_seamless⟩

/-- Two halves of a pair, the sum of them, and the pair written as a whole. -/
def halvesFile : List Java.Item :=
  let type : Java.TypeUse := .named (.ok "String")
  let modifiers : Java.Modifiers := ⟨[], true⟩
  let sum : Java.Expr := .plus (.string (.ok "\"\\ud83d\"")) (.string (.ok "\"\\ude00\""))
  [.type (.mk .ordinary .none "A" 1 [
    .fields modifiers type [⟨"S", 0, some sum, 1⟩],
    .fields modifiers type [⟨"T", 0, some (.string (.ok "\"\\ud83d\\ude00\"")), 2⟩]])]

def halves : Program :=
  match addFile ⟨[], []⟩ "A.java" halvesFile with
  | .ok p => p
  | .error _ => ⟨[], []⟩

theorem built_halves : halves.Built :=
  @Built.addFile ⟨[], []⟩ halves "A.java" halvesFile (.start []) rfl

def halvesSum : FieldRef := halves.fields.get ⟨0, by decide⟩

theorem string_joined_iff_halves :
    halves.Built ∧ halves.Remembers [] .empty ∧ halves.Asks (.field halvesSum) ∧
    answer (halves.ask (.field halvesSum)) .empty = .ok (some (.string [0xD83D, 0xDE00])) ∧
    ¬ halves.Derives .seamless (.field halvesSum) (.string [0xD83D, 0xDE00]) := by
  have hasks : halves.Asks (.field halvesSum) := List.get_mem _ _
  have hanswer : answer (halves.ask (.field halvesSum)) .empty =
      .ok (some (.string [0xD83D, 0xDE00])) := by decide +kernel
  refine ⟨built_halves, remembers_empty, hasks, hanswer, ?_⟩
  obtain ⟨-, hseamless, -⟩ := string_joined_iff built_halves remembers_empty hasks hanswer
  rw [← hseamless]
  decide +kernel

/-- The sum of the halves stays two surrogates. Its units are those of the pair, which is well
formed, but unlike the pair it has no UTF-8 form. -/
theorem string_of_halves_not_joined :
    answer (halves.ask (.field halvesSum)) .empty = .ok (some (.string [0xD83D, 0xDE00])) ∧
    ¬ Joined [0xD83D, 0xDE00] ∧ Utf16.units [0xD83D, 0xDE00] = Utf16.units [0x1F600] ∧
    Utf8.encode [0xD83D, 0xDE00] = .error ⟨0, 2, 0xD83D⟩ :=
  ⟨by decide +kernel, by decide +kernel, by decide +kernel, by decide +kernel⟩

end Program

end LookupGen
