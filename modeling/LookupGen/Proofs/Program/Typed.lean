import LookupGen.Proofs.Literal.Block
import LookupGen.Proofs.Literal.Integer
import LookupGen.Proofs.Program.Rules
import LookupGen.Proofs.Text.Units

/-!
# Typed values

The values of constant expressions as the language defines them: texts are sequences of UTF-16
units, numbers have the width of their type, and a field converts the value of its initializer to
the type that it is declared with. Beside this reading stands one that leaves out the conversion.

This module does NOT compare the two readings on whole programs.
-/

namespace LookupGen

open Java (UnaryOp)

inductive TypedValue where
  | string (u : List (BitVec 16))
  | boolean (b : Bool)
  | char (c : BitVec 16)
  | int (n : BitVec 32)
  | long (n : BitVec 64)
  deriving DecidableEq

namespace Literal

def stringLiteral? (t : Text) : Option (List (BitVec 16)) :=
  if Text.startsWith t "\"\"\"" then
    ((translate .start (unquote 3 t)).bind blockContent?).bind fun ms =>
      (interpret .block 0 (points ms)).map Utf16.units
  else
    (translate .start (unquote 1 t)).bind fun ms =>
      (interpret .string 0 (points ms)).map Utf16.units

def characterLiteral? (t : Text) : Option (BitVec 16) :=
  (translate .start (unquote 1 t)).bind fun ms =>
    (interpret .character 0 (points ms)).bind fun
      | [c] => if c.val < 0x10000 then some (BitVec.ofNat 16 c.val) else none
      | _ => none

/-- No Unicode escape of the literal is a part of an escape sequence, and a text block has its white
space as it is. -/
def plainString (t : Text) : Bool :=
  if Text.startsWith t "\"\"\"" then (translate .start (unquote 3 t)).all plainBlock
  else (translate .start (unquote 1 t)).all (separated .string 0)

def plainCharacter (t : Text) : Bool :=
  (translate .start (unquote 1 t)).all (separated .character 0)

end Literal

namespace TypedValue

def text : TypedValue → List (BitVec 16)
  | string u => u
  | boolean b => Utf16.units (if b then "true" else "false")
  | char c => [c]
  | int n => Utf16.units (Text.ofInt n.toInt)
  | long n => Utf16.units (Text.ofInt n.toInt)

def int? : TypedValue → Option (BitVec 32)
  | char c => some (c.setWidth 32)
  | int n => some n
  | _ => none

def long? : TypedValue → Option (BitVec 64)
  | char c => some (c.setWidth 64)
  | int n => some (n.signExtend 64)
  | long n => some n
  | _ => none

def sum (a b : TypedValue) : Option TypedValue :=
  match a.int?, b.int? with
  | some m, some n => some (int (m + n))
  | _, _ =>
    match a.long?, b.long? with
    | some m, some n => some (long (m + n))
    | _, _ => none

def plus : TypedValue → TypedValue → Option TypedValue
  | string u, b => some (string (u ++ b.text))
  | a, string u => some (string (a.text ++ u))
  | a, b => sum a b

def mapNumber (f : (w : Nat) → BitVec w → BitVec w) (a : TypedValue) : Option TypedValue :=
  match a.int? with
  | some n => some (int (f 32 n))
  | none => a.long?.map fun n => long (f 64 n)

def unary (op : UnaryOp) (a : TypedValue) : Option TypedValue :=
  match op, a with
  | .negation, boolean b => some (boolean !b)
  | .negation, _ => none
  | .plus, a => a.mapNumber fun _ n => n
  | .minus, a => a.mapNumber fun _ n => -n
  | .complement, a => a.mapNumber fun _ n => ~~~n

/-- The value of a constant that is assigned to a field of a type. An `int` becomes a `char` only if
it is the number of a unit. -/
def convert (type : Name) (a : TypedValue) : Option TypedValue :=
  if type = stringType then
    match a with
    | string u => some (string u)
    | _ => none
  else if type = "boolean" then
    match a with
    | boolean b => some (boolean b)
    | _ => none
  else if type = "char" then
    match a with
    | char c => some (char c)
    | int n => if 0 ≤ n.toInt ∧ n.toInt < 0x10000 then some (char (n.setWidth 16)) else none
    | _ => none
  else if type = "int" then a.int?.map int
  else if type = "long" then a.long?.map long
  else none

/-- What no conversion changes about a value. -/
inductive Shape where
  | text
  | truth
  | number
  deriving DecidableEq

def shape : TypedValue → Shape
  | string _ => .text
  | boolean _ => .truth
  | char _ => .number
  | int _ => .number
  | long _ => .number

def shapeOf? (type : Name) : Option Shape :=
  if type = stringType then some .text
  else if type = "boolean" then some .truth
  else if type = "char" ∨ type = "int" ∨ type = "long" then some .number
  else none

def Shape.plus? : Shape → Shape → Option Shape
  | .text, _ => some .text
  | _, .text => some .text
  | .number, .number => some .number
  | _, _ => none

def Shape.unary? : UnaryOp → Shape → Option Shape
  | .negation, .truth => some .truth
  | .negation, _ => none
  | _, .number => some .number
  | _, _ => none

def keep (type : Name) (a : TypedValue) : Option TypedValue :=
  if shapeOf? type = some a.shape then some a else none

end TypedValue

/-- Expressions over typed values, with what a field makes of its initializer left open. -/
def Semantics.typedWith (declare : Name → TypedValue → Option TypedValue) :
    Semantics TypedValue where
  string t := (Literal.stringLiteral? t).map .string
  character t := (Literal.characterLiteral? t).map .char
  integer t := (Literal.integerLiteral? t).map fun (isLong, n) =>
    if isLong then .long (BitVec.ofNat 64 n) else .int (BitVec.ofNat 32 n)
  boolean := .boolean
  plus := TypedValue.plus
  unary := TypedValue.unary
  declare := declare

/-- The reading of the language. -/
def Semantics.typed : Semantics TypedValue := .typedWith TypedValue.convert

def Semantics.unconverted : Semantics TypedValue := .typedWith TypedValue.keep

namespace TypedValue

variable {a a' b b' v : TypedValue}

theorem shape_of_int? {n : BitVec 32} (h : a.int? = some n) : a.shape = .number := by
  cases a with
  | char c => rfl
  | int m => rfl
  | string | boolean | long => cases h

theorem shape_of_long? {n : BitVec 64} (h : a.long? = some n) : a.shape = .number := by
  cases a with
  | char c => rfl
  | int m => rfl
  | long m => rfl
  | string | boolean => cases h

theorem shape_of_convert {type : Name} (h : convert type a = some v) :
    shapeOf? type = some a.shape ∧ v.shape = a.shape := by
  unfold convert at h
  split at h
  · rename_i htype
    subst htype
    cases a with
    | string u =>
      obtain rfl := Option.some.inj h
      exact ⟨rfl, rfl⟩
    | _ => cases h
  · split at h
    · rename_i htype
      subst htype
      have hshape : shapeOf? "boolean" = some .truth := by decide
      cases a with
      | boolean b =>
        obtain rfl := Option.some.inj h
        exact ⟨hshape, rfl⟩
      | _ => cases h
    · split at h
      · rename_i htype
        subst htype
        have hshape : shapeOf? "char" = some .number := by decide
        cases a with
        | char c =>
          obtain rfl := Option.some.inj h
          exact ⟨hshape, rfl⟩
        | int n =>
          simp only at h
          split at h
          · obtain rfl := Option.some.inj h
            exact ⟨hshape, rfl⟩
          · cases h
        | _ => cases h
      · split at h
        · rename_i htype
          subst htype
          have hshape : shapeOf? "int" = some .number := by decide
          obtain ⟨n, hn, rfl⟩ := Option.map_eq_some_iff.mp h
          rw [shape_of_int? hn]
          exact ⟨hshape, rfl⟩
        · split at h
          · rename_i htype
            subst htype
            have hshape : shapeOf? "long" = some .number := by decide
            obtain ⟨n, hn, rfl⟩ := Option.map_eq_some_iff.mp h
            rw [shape_of_long? hn]
            exact ⟨hshape, rfl⟩
          · cases h

theorem keep_of_convert {type : Name} (h : convert type a = some v) (hb : a.shape = b.shape) :
    keep type b = some b := by
  rw [keep, if_pos ((shape_of_convert h).1.trans (congrArg some hb))]

theorem map_shape_plus (a b : TypedValue) :
    (a.plus b).map shape = Shape.plus? a.shape b.shape := by
  cases a <;> cases b <;> rfl

theorem map_shape_unary (op : UnaryOp) (a : TypedValue) :
    (a.unary op).map shape = Shape.unary? op a.shape := by
  cases op <;> cases a <;> rfl

theorem shape_plus (ha : a.shape = a'.shape) (hb : b.shape = b'.shape) (h : a.plus b = some v) :
    ∃ v', a'.plus b' = some v' ∧ v.shape = v'.shape := by
  have hmap : (a'.plus b').map shape = some v.shape := by
    rw [map_shape_plus, ← ha, ← hb, ← map_shape_plus, h]
    rfl
  obtain ⟨v', hv', hshape⟩ := Option.map_eq_some_iff.mp hmap
  exact ⟨v', hv', hshape.symm⟩

theorem shape_unary {op : UnaryOp} (ha : a.shape = a'.shape) (h : a.unary op = some v) :
    ∃ v', a'.unary op = some v' ∧ v.shape = v'.shape := by
  have hmap : (a'.unary op).map shape = some v.shape := by
    rw [map_shape_unary, ← ha, ← map_shape_unary, h]
    rfl
  obtain ⟨v', hv', hshape⟩ := Option.map_eq_some_iff.mp hmap
  exact ⟨v', hv', hshape.symm⟩

end TypedValue

end LookupGen
