import LookupGen.Yaml.Tag

/-!
# Plain scalars

A plain scalar without a tag has a type by its form: a word, a number or a time of one of several
spellings. Whatever has no such form is a string. A line end behind the form does not count.
-/

namespace LookupGen.Yaml.Scalar

def isDigit (c : CodePoint) : Bool := c.digit?.isSome

def isDigitOrLow (c : CodePoint) : Bool := isDigit c || c = '_'

def isSign (c : CodePoint) : Bool := c = '+' || c = '-'

def unsigned (t : Text) : Text := if t.head?.any isSign then t.drop 1 else t

def allOf (p : CodePoint → Bool) (t : Text) : Bool := !t.isEmpty && t.all p

def isDigits (t : Text) : Bool := t.head?.any isDigit && t.all isDigitOrLow

def isPlainDigits (t : Text) : Bool := isDigits t && t.head? ≠ some (CodePoint.ofChar '0')

/-- A digit, or two of which the first is at most five. -/
def isSixty (t : Text) : Bool :=
  match t with
  | [c] => isDigit c
  | [c, d] => isDigit d && (c.digit?.any fun n => n ≤ 5)
  | _ => false

def isSexagesimal (first : Text → Bool) (t : Text) : Bool :=
  match Text.splitAll ':' t with
  | head :: next :: rest => first head && isSixty next && rest.all isSixty
  | _ => false

def behind? (t lead : Text) : Option Text :=
  if Text.startsWith t lead then some (t.drop lead.length) else none

def isInteger (t : Text) : Bool :=
  let t := unsigned t
  ((behind? t "0b").any (allOf fun c => c = '0' || c = '1' || c = '_')) ||
  ((behind? t "0").any (allOf fun c => c.octalDigit?.isSome || c = '_')) ||
  t = "0" || isPlainDigits t ||
  ((behind? t "0x").any (allOf fun c => c.hexDigit?.isSome || c = '_')) ||
  isSexagesimal isPlainDigits t

def isExponent (t : Text) : Bool :=
  match t with
  | e :: sign :: digits => (e = 'e' || e = 'E') && isSign sign && allOf isDigit digits
  | _ => false

def isFraction (t : Text) : Bool :=
  let rest := t.dropWhile isDigitOrLow
  rest.isEmpty || isExponent rest

def isDecimal (t : Text) : Bool :=
  let u := unsigned t
  (match Text.splitFirst '.' u with
    | some (whole, fraction) =>
      (isDigits whole && isFraction fraction) ||
      (isSexagesimal isDigits whole && fraction.all isDigitOrLow)
    | none => false) ||
  ((behind? t ".").any fun fraction => fraction.head?.any isDigit && isFraction fraction) ||
  ([".inf", ".Inf", ".INF"] : List Text).contains u ||
  ([".nan", ".NaN", ".NAN"] : List Text).contains t

def truthWords : List Text := List.map Text.ofString [
  "yes", "Yes", "YES", "no", "No", "NO", "true", "True", "TRUE", "false", "False", "FALSE",
  "on", "On", "ON", "off", "Off", "OFF"]

def nullWords : List Text := List.map Text.ofString ["~", "null", "Null", "NULL", ""]

/-- A number of one or two digits at the front, of at least `least`, and the rest. -/
def shortNumber? (least : Nat) (t : Text) : Option (Nat × Text) :=
  let digits := (t.take 2).takeWhile isDigit
  if digits.length < least then none
  else (Text.digits? 10 CodePoint.digit? digits).map fun n => (n, t.drop digits.length)

def takeOne? (p : CodePoint → Bool) (t : Text) : Option Text :=
  match t with
  | c :: rest => if p c then some rest else none
  | [] => none

structure Time where
  year : Nat
  month : Nat
  day : Nat
  clock : Option (Nat × Nat × Nat)
  offset : Option Int
  full : Bool
  deriving DecidableEq, Repr

def isTimeSpace (c : CodePoint) : Bool := c.val == 0x20 || c.val == 0x09

/-- The zone at the end of a time: the sign of universal time, or an offset of hours and minutes
or none. -/
def zone? (t : Text) : Option (Option Int) :=
  match t.dropWhile isTimeSpace with
  | [] => if t.isEmpty then some none else none
  | c :: rest =>
    if c = 'Z' then if rest.isEmpty then some (some 0) else none
    else if isSign c then do
      let (hours, rest) ← shortNumber? 1 rest
      let (minutes, rest) ←
        if rest.isEmpty then some (0, rest)
        else shortNumber? 2 (← takeOne? (· = ':') rest)
      let size : Int := (60 * hours + minutes : Nat)
      if rest.isEmpty then some (some (if c = '-' then -size else size)) else none
    else none

def skipFraction (t : Text) : Text :=
  if t.head? = some (CodePoint.ofChar '.') then (t.drop 1).dropWhile isDigit else t

def clock? (t : Text) : Option ((Nat × Nat × Nat) × Option Int) := do
  let (hour, t) ← shortNumber? 1 t
  let (minute, t) ← shortNumber? 2 (← takeOne? (· = ':') t)
  let (second, t) ← shortNumber? 2 (← takeOne? (· = ':') t)
  return ((hour, minute, second), ← zone? (skipFraction t))

def behindDate? (t : Text) : Option Text :=
  match t with
  | [] => none
  | c :: rest =>
    if c = 'T' ∨ c = 't' then some rest
    else if isTimeSpace c then some (rest.dropWhile isTimeSpace)
    else none

def time? (t : Text) : Option Time := do
  let year := t.take 4
  if year.length < 4 then none
  let year ← Text.digits? 10 CodePoint.digit? year
  let (month, afterMonth) ← shortNumber? 1 (← takeOne? (· = '-') (t.drop 4))
  let (day, afterDay) ← shortNumber? 1 (← takeOne? (· = '-') afterMonth)
  if afterDay.isEmpty then return ⟨year, month, day, none, none, decide (t.length = 10)⟩
  else
    let (clock, offset) ← clock? (← behindDate? afterDay)
    return ⟨year, month, day, some clock, offset, true⟩

/-- The spellings of times. A date alone has two digits for month and day. -/
def isTime (t : Text) : Bool := (time? t).any fun time => time.clock.isSome || time.full

def withoutLineEnd (t : Text) : Text := if Text.endsWith t "\n" then t.dropLast else t

def specialTag? (t : Text) : Option CoreTag :=
  if truthWords.contains t then some .bool
  else if isDecimal t then some .float
  else if isInteger t then some .int
  else if t = "<<" then some .merge
  else if nullWords.contains t then some .null
  else if isTime t then some .timestamp
  else if t = "=" then some .value
  else if t = "!" ∨ t = "&" ∨ t = "*" then some .yaml
  else none

def implicitTag (t : Text) : CoreTag :=
  if t.isEmpty then .null
  else if (withoutLineEnd t).isEmpty then .str
  else (specialTag? (withoutLineEnd t)).getD .str

end LookupGen.Yaml.Scalar
