import LookupGen.Element

/-!
# Constants

The values of constant expressions with their static types, and the operators on them. Arithmetic
on `int` and `long` is exact and then cut to the width of the type; a character counts as an
`int`.
-/

namespace LookupGen

/-- A constant with its type. A character is kept as the text that its literal decodes to. -/
inductive Constant where
  | string (t : Text)
  | boolean (b : Bool)
  | character (t : Text)
  | int (n : Int)
  | long (n : Int)
  deriving DecidableEq, Repr

structure NotOneCharacter where
  size : Nat
  deriving DecidableEq, Repr

namespace Constant

def value : Constant → Value
  | string t => .text t
  | boolean b => .bool b
  | character t => .text t
  | int n => .int n
  | long n => .int n

def isString : Constant → Bool
  | string _ => true
  | _ => false

/-- The integer in the range of `bits` bits in two's complement that agrees with `n` modulo
`2 ^ bits`. -/
def wrap (bits : Nat) (n : Int) : Int := n.bmod (Nat.pow 2 bits)

def ofInt (n : Int) : Constant := int (wrap 32 n)

def ofLong (n : Int) : Constant := long (wrap 64 n)

def toText : Constant → Text
  | string t => t
  | boolean b => if b then "true" else "false"
  | character t => t
  | int n => Text.ofInt n
  | long n => Text.ofInt n

/-- A numeric operand: whether it is long, and its value. A character is its code point. -/
def number? : Constant → Except NotOneCharacter (Option (Bool × Int))
  | int n => .ok (some (false, n))
  | long n => .ok (some (true, n))
  | character t =>
    match t with
    | [c] => .ok (some (false, c.val))
    | _ => .error ⟨t.length⟩
  | _ => .ok none

def ofNumber (isLong : Bool) (n : Int) : Constant := if isLong then ofLong n else ofInt n

def isNumeric : Constant → Bool
  | int _ => true
  | long _ => true
  | character _ => true
  | _ => false

/-- The sum of two constants: text if either is a string, a number if both are numeric. -/
def plus (a b : Constant) : Except NotOneCharacter (Option Constant) :=
  if a.isString || b.isString then .ok (some (string (a.toText ++ b.toText)))
  else if a.isNumeric && b.isNumeric then do
    let x ← a.number?
    let y ← b.number?
    match x, y with
    | some (la, m), some (lb, n) => pure (some (ofNumber (la || lb) (m + n)))
    | _, _ => pure none
  else .ok none

def mapNumber (f : Int → Int) (a : Constant) : Except NotOneCharacter (Option Constant) := do
  match ← a.number? with
  | some (isLong, n) => pure (some (ofNumber isLong (f n)))
  | none => pure none

def negate? : Constant → Option Constant
  | boolean b => some (boolean !b)
  | _ => none

end Constant

end LookupGen
