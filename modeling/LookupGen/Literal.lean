import LookupGen.Text.Encoding

/-!
# Literals

`encode` writes a text so that it can stand between the quotes of a Java string literal, and
`decode` reads such a body. A backslash that starts no escape stands for itself. A text block starts
on the line after its opening quotes; the indentation that its significant lines share and the
blanks at the end of each line are no part of its content, and escapes are read last, so they can
keep such blanks. An integer literal has one of four radices, and its value here is not yet cut to
the width of its type.
-/

namespace LookupGen.Literal

def shortEscapes : List (CodePoint × CodePoint) :=
  [('b', 0x08), ('t', 0x09), ('n', 0x0A), ('f', 0x0C), ('r', 0x0D), ('s', 0x20), ('"', '"'),
    ('\'', '\''), ('\\', '\\')]

/-- What follows a run of the letter `u`: the four digits after it and the length of all. -/
def unicodeEscape? : Text → Option (CodePoint × Nat)
  | c :: rest =>
    if c = 'u' then
      match unicodeEscape? rest with
      | some (point, size) => some (point, size + 1)
      | none =>
        if (rest.take 4).length = 4 then
          (Text.digits? 16 CodePoint.hexDigit? (rest.take 4)).map fun n =>
            (Fin.ofNat 0x110000 n, 5)
        else none
    else none
  | [] => none

/-- One to three octal digits, the first of three at most 3. -/
def octalEscape? (t : Text) : Option (CodePoint × Nat) :=
  match t with
  | [] => none
  | c :: _ =>
    match c.octalDigit? with
    | none => none
    | some d =>
      let longest := if d ≤ 3 then 3 else 2
      let digits := (t.take longest).takeWhile fun c => c.octalDigit?.isSome
      (Text.digits? 8 CodePoint.octalDigit? digits).map fun n =>
        (Fin.ofNat 0x110000 n, digits.length)

/-- The escape whose backslash has been read: the text it stands for and its length. A line end
after the backslash stands for nothing. -/
def escape? (t : Text) : Option (Text × Nat) :=
  match unicodeEscape? t with
  | some (point, size) => some ([point], size)
  | none =>
    match octalEscape? t with
    | some (point, size) => some ([point], size)
    | none =>
      match t with
      | [] => none
      | c :: rest =>
        match shortEscapes.lookup c with
        | some point => some ([point], 1)
        | none =>
          if c = '\r' then some ([], if rest.head? = some (CodePoint.ofChar '\n') then 2 else 1)
          else if c = '\n' then some ([], 1)
          else none

/-- Every escape replaced, after passing over the `skip` code points already read. -/
def replaceEscapes (skip : Nat) : Text → Text
  | [] => []
  | c :: rest =>
    match skip with
    | skip + 1 => replaceEscapes skip rest
    | 0 =>
      if c = '\\' then
        match escape? rest with
        | some (value, size) => value ++ replaceEscapes size rest
        | none => c :: replaceEscapes 0 rest
      else c :: replaceEscapes 0 rest

/-- The text that the body of a literal stands for. Unicode escapes are UTF-16 units, so a pair
of them is one code point. -/
def decode (body : Text) : Text := Utf16.joinPairs (replaceEscapes 0 body)

def encodePoint (c : CodePoint) : Text :=
  if c = '\\' then "\\\\"
  else if c = '"' then "\\\""
  else if c = '\n' then "\\n"
  else if c = '\r' then "\\r"
  else if c = '\t' then "\\t"
  else if c.val = 0x08 then "\\b"
  else if c.val = 0x0C then "\\f"
  else if c.val < 0x20 ∨ c.val = 0x7F then
    ['\\', Fin.ofNat 0x110000 (0x30 + c.val / 64), Fin.ofNat 0x110000 (0x30 + c.val / 8 % 8),
      Fin.ofNat 0x110000 (0x30 + c.val % 8)]
  else [c]

def encode (t : Text) : Text := t.flatMap encodePoint

def isIndent (c : CodePoint) : Bool := c = ' ' || c = '\t'

def indentation (line : Text) : Nat := (line.takeWhile isIndent).length

/-- The indentation shared by the lines that are not blank and by the last line, blank or not. -/
def sharedIndentation : List Text → Nat
  | [] => 0
  | [line] => indentation line
  | line :: rest =>
    if Text.isAllBlank line then sharedIndentation rest
    else min (indentation line) (sharedIndentation rest)

def stripLines (lines : List Text) : List Text :=
  let shared := sharedIndentation lines
  lines.map fun line => Text.dropEndWhile isIndent (line.drop shared)

def decodeBlock (body : Text) : Text :=
  let content := match Text.splitFirst '\n' (Text.unifyLineEnds body) with
    | some (_, after) => after
    | none => []
  decode (Text.joinWith ['\n'] (stripLines (Text.splitAll '\n' content)))

def maxDecimalDigits : Nat := 4300

def isLongMark (c : CodePoint) : Bool := c = 'l' || c = 'L'

/-- An octal literal may be marked by a letter after its zero, but such a literal has no value. -/
def octal? (digits : Text) : Option Nat := Text.digits? 8 CodePoint.octalDigit? digits

/-- The value of digits without low lines and marks. -/
def magnitude? : Text → Option Nat
  | z :: c :: rest =>
    if z = '0' then
      if c = 'x' ∨ c = 'X' then Text.digits? 16 CodePoint.hexDigit? rest
      else if c = 'b' ∨ c = 'B' then Text.digits? 2 CodePoint.digit? rest
      else octal? (c :: rest)
    else if (z :: c :: rest).length ≤ maxDecimalDigits then
      Text.digits? 10 CodePoint.digit? (z :: c :: rest)
    else none
  | digits => Text.digits? 10 CodePoint.digit? digits

def integer? (literal : Text) : Option (Bool × Nat) :=
  let long := literal.getLast?.any isLongMark
  let digits := Text.dropEndWhile isLongMark (literal.filter fun c => decide (c ≠ '_'))
  (magnitude? digits).map fun n => (long, n)

end LookupGen.Literal
