import LookupGen.Unicode.Case
import LookupGen.Unicode.Classes
import LookupGen.Yaml.Error
import LookupGen.Yaml.Scalar

/-!
# Scalars under a tag

Whether the text of a scalar that is tagged as a number is one, and whether that of one tagged as
binary data is in base 64. Plain scalars with the form of a number nearly always are numbers; a tag
can be given to any text. Digits of all scripts count, and white space around a number does not. In
base 64 what is no digit is passed over, and reading ends with a group that is filled up with equals
signs.
-/

namespace LookupGen.Yaml.Scalar

def isAsciiSpace (c : CodePoint) : Bool := (0x09 ≤ c.val && c.val ≤ 0x0D) || c.val == 0x20

/-- A code point of a number in ASCII: digits and white space of all scripts become those of
ASCII, and what is left becomes a question mark. -/
def asciiPoint (c : CodePoint) : CodePoint :=
  if c.val < 0x7F then c
  else if Text.isBlank c then ' '
  else
    match Unicode.decimalDigit? c with
    | some n => Fin.ofNat 0x110000 (0x30 + n)
    | none => '?'

def asciiNumber (t : Text) : Text := Text.trim isAsciiSpace (t.map asciiPoint)

def baseLetter? : Nat → Option (CodePoint × CodePoint)
  | 2 => some ('b', 'B')
  | 8 => some ('o', 'O')
  | 16 => some ('x', 'X')
  | _ => none

def withoutBase (base : Nat) (t : Text) : Text :=
  match t, baseLetter? base with
  | z :: c :: rest, some (lower, upper) => if z = '0' ∧ (c = lower ∨ c = upper) then rest else t
  | _, _ => t

def digitOf (base : Nat) (c : CodePoint) : Option Nat := c.hexDigit?.filter fun n => n < base

def maxDecimalDigits : Nat := 4300

def checkInteger (base : Nat) (t : Text) : Except Failure Unit :=
  let digits := withoutBase base (unsigned (asciiNumber t))
  if digits.isEmpty || !digits.all (fun c => (digitOf base c).isSome) then
    throw (.value (.notInteger base t))
  else if base = 10 ∧ maxDecimalDigits < digits.length then throw (.value (.tooLong digits.length))
  else return ()

def withoutLows (t : Text) : Text := t.filter fun c => decide (c ≠ '_')

/-- Checks that a scalar is an integer: in base 2, 8 or 16 behind the mark of the base, in base 60
with colons, in base 10 otherwise. -/
def checkInt (t : Text) : Except Failure Unit :=
  match withoutLows t with
  | [] => throw .noDigits
  | c :: rest =>
    let digits := if isSign c then rest else c :: rest
    if digits = "0" then return ()
    else if Text.startsWith digits "0b" then checkInteger 2 (digits.drop 2)
    else if Text.startsWith digits "0x" then checkInteger 16 (digits.drop 2)
    else
      match digits.head? with
      | none => throw .noDigits
      | some first =>
        if first = '0' then checkInteger 8 digits
        else (Text.splitAll ':' digits).forM (checkInteger 10)

def numberWords : List Text := ["inf", "infinity", "nan"]

def isExponentOrNone (t : Text) : Bool :=
  match t with
  | [] => true
  | e :: rest => e = 'e' && allOf isDigit (unsigned rest)

def isFractionText (t : Text) : Bool :=
  let u := unsigned t
  let whole := u.takeWhile isDigit
  let rest := u.dropWhile isDigit
  numberWords.contains u ||
  (match rest with
    | c :: more =>
      if c = '.' then
        (!whole.isEmpty || more.head?.any isDigit) && isExponentOrNone (more.dropWhile isDigit)
      else !whole.isEmpty && isExponentOrNone rest
    | [] => !whole.isEmpty)

def checkDecimal (t : Text) : Except Failure Unit :=
  if isFractionText (asciiNumber t) then return () else throw (.value (.notDecimal t))

def maxSexagesimalParts : Nat := 174

def checkFloat (t : Text) : Except Failure Unit :=
  match (withoutLows t).map Unicode.lower with
  | [] => throw .noDigits
  | c :: rest =>
    let digits := if isSign c then rest else c :: rest
    if digits = ".inf" ∨ digits = ".nan" then return ()
    else if digits.contains (CodePoint.ofChar ':') then do
      let parts := Text.splitAll ':' digits
      parts.forM checkDecimal
      if maxSexagesimalParts < parts.length then throw .tooGreat
    else checkDecimal digits

def isBase64Digit (c : CodePoint) : Bool :=
  (0x30 ≤ c.val && c.val ≤ 0x39) || (0x41 ≤ c.val && c.val ≤ 0x5A) ||
  (0x61 ≤ c.val && c.val ≤ 0x7A) || c.val == 0x2B || c.val == 0x2F

/-- Checks data from a point on: how many digits came before, how many of them in the open group,
and how many equals signs behind them. -/
def checkGroups (digits group pads : Nat) : Text → Option Problem
  | [] =>
    if group = 0 then none
    else if group = 1 then some (.binaryLoneDigit (digits / 4 * 4 + 1))
    else some .binaryPadding
  | c :: rest =>
    if c = '=' then
      if 2 ≤ group then
        if 4 ≤ group + pads + 1 then none else checkGroups digits group (pads + 1) rest
      else checkGroups digits group pads rest
    else if isBase64Digit c then checkGroups (digits + 1) ((group + 1) % 4) 0 rest
    else checkGroups digits group pads rest

def firstNotAscii? (position : Nat) : Text → Option (Nat × Nat × CodePoint)
  | [] => none
  | c :: rest =>
    if c.val < 0x80 then firstNotAscii? (position + 1) rest
    else some (position, 1 + (rest.takeWhile fun d => 0x80 ≤ d.val).length, c)

def binaryProblem? (t : Text) : Option Problem :=
  match firstNotAscii? 0 t with
  | some (position, size, c) => some (.binaryNotAscii position size c)
  | none => checkGroups 0 0 0 t

end LookupGen.Yaml.Scalar
