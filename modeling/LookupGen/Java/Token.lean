import LookupGen.Java.Glyph
import LookupGen.Name

/-!
# Tokens

A token carries the glyphs that stand before it, so that the text of any part of a file can be
put together from its tokens. Every file ends with a token of its own. What starts no token is a
stray token, which no rule of the grammar takes.
-/

namespace LookupGen.Java

/-- What a token is. Words and signs are known by their spelling. -/
inductive TokenKind where
  | word (spelling : String)
  | sign (spelling : String)
  | integer
  | floating
  | character
  | string
  | stray
  | finish
  deriving DecidableEq, Repr

/-- A token: its place in the file, the glyphs before it, its own, and the line it starts on. -/
structure Token where
  kind : TokenKind
  index : Nat
  gap : List Glyph
  glyphs : List Glyph
  line : Nat
  deriving Repr

namespace Token

def endLine (t : Token) : Nat := t.line + Glyph.lineFeeds t.glyphs

def isJoined (t : Token) : Bool := t.gap.isEmpty

/-- The glyphs from the first of some tokens to the last, with all that stands between them. -/
def span : List Token → List Glyph
  | [] => []
  | t :: rest => t.glyphs ++ rest.flatMap fun u => u.gap ++ u.glyphs

def isSpace (c : Char) : Bool := (9 ≤ c.toNat && c.toNat ≤ 13) || c == ' '

def blockCommentRest : List Glyph → Option Nat
  | [] => none
  | [_] => none
  | .char '*' :: .char '/' :: _ => some 2
  | .char '\x00' :: _ => none
  | _ :: rest => (blockCommentRest rest).map (· + 1)

/-- The number of further glyphs that belong to the blanks or the comment which `g` starts. -/
def gapRest? (g : Glyph) (rest : List Glyph) : Option Nat :=
  if g.satisfies isSpace then some (rest.takeWhile (·.satisfies isSpace)).length
  else if g.is '/' then
    match rest with
    | .char '/' :: _ =>
      some (rest.takeWhile fun g => !(g.is '\n' || g.is '\x00')).length
    | .char '*' :: more => (blockCommentRest more).map (· + 1)
    | _ => none
  else none

def startsWord (c : Char) : Bool := Name.isStart (CodePoint.ofChar c)

def continuesWord (c : Char) : Bool := Name.isPart (CodePoint.ofChar c) || c == '¢'

/-- The signs, longer ones before their beginnings. The sign `>` always stands alone, since
several of them may close type arguments. -/
def signs : List String := [
  "@interface", "<<=", "...", "->", "::", "++", "--", "&&", "||", "==", "!=", "<=", "<<", "+=",
  "-=", "*=", "/=", "&=", "|=", "^=", "%=", "(", ")", "\x7b", "\x7d", "[", "]", ";", ",", ".",
  "@", "=", ">", "<", "!", "~", "?", ":", "+", "-", "*", "/", "&", "|", "^", "%"]

def startsWith (s : String) (glyphs : List Glyph) : Bool :=
  (s.toList.map Glyph.char).isPrefixOf glyphs

/-- The length of the longest run of digits at the front, in groups with one low line between
neighbours, or with several where `many` says so. -/
def grouped (digit : Char → Bool) (many : Bool) (glyphs : List Glyph) : Nat :=
  match glyphs with
  | [] => 0
  | g :: rest =>
    if g.satisfies digit then
      let lows := (rest.takeWhile (·.is '_')).length
      let lows := if many then lows else min lows 1
      let more := grouped digit many (rest.drop lows)
      if more = 0 then 1 else 1 + lows + more
    else 0
termination_by glyphs.length
decreasing_by simp only [List.length_drop, List.length_cons]; omega

def isDigit (c : Char) : Bool := '0' ≤ c && c ≤ '9'

def isHexDigit (c : Char) : Bool := isDigit c || ('a' ≤ c && c ≤ 'f') || ('A' ≤ c && c ≤ 'F')

def isOctalDigit (c : Char) : Bool := '0' ≤ c && c ≤ '7'

def isBinaryDigit (c : Char) : Bool := c == '0' || c == '1'

/-- The length of a decimal number: a zero, or digits that do not start with one. -/
def plainDigits (glyphs : List Glyph) : Nat :=
  match glyphs with
  | [] => 0
  | g :: rest =>
    if g.is '0' then 1
    else if g.satisfies isDigit then
      let more := grouped isDigit true rest
      let low := if rest.head?.any (·.is '_') then 1 + grouped isDigit true (rest.drop 1) else 0
      1 + max more (if low = 1 then 0 else low)
    else 0

def extend (p : Char → Bool) (glyphs : List Glyph) (size : Nat) : Nat :=
  if (glyphs.drop size).head?.any (·.satisfies p) then size + 1 else size

def extendExponent (marks : List Char) (digits : List Glyph → Nat) (glyphs : List Glyph)
    (size : Nat) : Option Nat :=
  let afterMark := extend marks.contains glyphs size
  if afterMark = size then none
  else
    let afterSign := extend (fun c => c == '+' || c == '-') glyphs afterMark
    let n := digits (glyphs.drop afterSign)
    if n = 0 then none else some (afterSign + n)

/-- The length of a suffix letter of a long number, added to a number that is there. -/
def extendLong (glyphs : List Glyph) (size : Nat) : Nat :=
  extend (fun c => c == 'l' || c == 'L') glyphs size

def isFloatSuffix (c : Char) : Bool := c == 'f' || c == 'F' || c == 'd' || c == 'D'

def integerSizes (glyphs : List Glyph) : List Nat :=
  let radix (starts : List String) (digit : Char → Bool) : List Nat :=
    starts.filterMap fun s =>
      if startsWith s glyphs then
        let n := grouped digit false (glyphs.drop s.length)
        if n = 0 then none else some (extendLong glyphs (s.length + n))
      else none
  let plain := plainDigits glyphs
  (if plain = 0 then [] else [extendLong glyphs plain]) ++ radix ["0x", "0X"] isHexDigit ++
    radix ["0o", "0O", "0"] isOctalDigit ++ radix ["0b", "0B"] isBinaryDigit

def floatingSizes (glyphs : List Glyph) : List Nat :=
  let suffix (size : Nat) := extend isFloatSuffix glyphs size
  let digits := grouped isDigit false
  let decimalExponent (size : Nat) := (extendExponent ['e', 'E'] digits glyphs size).getD size
  let whole := digits glyphs
  let point (size : Nat) := (glyphs.drop size).head?.any (·.is '.')
  let withPoint :=
    if whole ≠ 0 ∧ point whole then
      [suffix (decimalExponent (whole + 1 + digits (glyphs.drop (whole + 1))))]
    else []
  let pointFirst :=
    if point 0 ∧ digits (glyphs.drop 1) ≠ 0 then
      [suffix (decimalExponent (1 + digits (glyphs.drop 1)))]
    else []
  let plain := plainDigits glyphs
  let withExponent :=
    if plain = 0 then []
    else (extendExponent ['e', 'E', 'p', 'P'] digits glyphs plain).toList.map suffix
  let withSuffix :=
    if plain = 0 then []
    else
      let size := decimalExponent plain
      if suffix size = size then [] else [suffix size]
  let hexadecimal :=
    if startsWith "0x" glyphs ∨ startsWith "0X" glyphs then
      let hexDigits := grouped isHexDigit false
      let left := hexDigits (glyphs.drop 2)
      let right := hexDigits (glyphs.drop (2 + left + 1))
      let mantissas :=
        (if left = 0 then [] else [2 + left] ++ if point (2 + left) then [2 + left + 1] else []) ++
        (if point (2 + left) ∧ right ≠ 0 then [2 + left + 1 + right] else [])
      mantissas.flatMap fun size =>
        size :: (extendExponent ['e', 'E', 'p', 'P'] plainDigits glyphs size).toList.map suffix
    else []
  withPoint ++ pointFirst ++ withExponent ++ withSuffix ++ hexadecimal

/-- The longest number at the front; of two of one length the integer. -/
def number? (glyphs : List Glyph) : Option (TokenKind × Nat) :=
  let integer := (integerSizes glyphs).foldl max 0
  let floating := (floatingSizes glyphs).foldl max 0
  if integer = 0 ∧ floating = 0 then none
  else if floating ≤ integer then some (.integer, integer)
  else some (.floating, floating)

/-- The length of a character literal whose opening quote is read; `empty` says that nothing
stands between the quotes so far. -/
def characterRest (empty : Bool) : List Glyph → Option Nat
  | [] => none
  | .char '\'' :: _ => if empty then none else some 1
  | .char '\n' :: _ => none
  | .char '\x00' :: _ => none
  | .char '\\' :: [] => none
  | .char '\\' :: _ :: rest => (characterRest false rest).map (· + 2)
  | _ :: rest => (characterRest false rest).map (· + 1)

/-- The length of an escape in a string literal whose backslash is read. An embedded expression
reaches to its closing brace. -/
def stringEscape? (glyphs : List Glyph) : Option Nat :=
  match glyphs with
  | [] => none
  | .char 'x' :: rest =>
    if 2 ≤ ((rest.take 2).takeWhile (·.satisfies isHexDigit)).length then some 3 else none
  | .char 'u' :: rest =>
    if 4 ≤ ((rest.take 4).takeWhile (·.satisfies isHexDigit)).length then some 5
    else if rest.head?.any (·.is '\x7b') then
      let n := ((rest.drop 1).takeWhile (·.satisfies isHexDigit)).length
      if n ≠ 0 ∧ (rest.drop (1 + n)).head?.any (·.is '\x7d') then some (3 + n) else none
    else none
  | .char '\x7b' :: rest =>
    let n := (rest.takeWhile fun g => !(g.is '\x7d')).length
    if n < rest.length then some (n + 2) else none
  | .char '\x00' :: _ => none
  | _ :: _ => some 1

def stringRest (glyphs : List Glyph) : Option Nat :=
  match glyphs with
  | [] => none
  | .char '"' :: _ => some 1
  | .char '\x00' :: _ => none
  | .char '\\' :: rest =>
    match stringEscape? rest with
    | some n => (stringRest (rest.drop n)).map (· + 1 + n)
    | none => none
  | _ :: rest => (stringRest rest).map (· + 1)
termination_by glyphs.length
decreasing_by
  all_goals simp only [List.length_drop, List.length_cons]; omega

def blockRest : List Glyph → Option Nat
  | [] => none
  | .char '"' :: .char '"' :: .char '"' :: _ => some 3
  | .char '\x00' :: _ => none
  | .char '\\' :: [] => none
  | .char '\\' :: _ :: rest => (blockRest rest).map (· + 2)
  | _ :: rest => (blockRest rest).map (· + 1)

/-- What starts with a glyph: its kind and the number of further glyphs in it. -/
def kindAndRest (g : Glyph) (rest : List Glyph) : TokenKind × Nat :=
  let glyphs := g :: rest
  if g.satisfies startsWord then
    let more := rest.takeWhile (·.satisfies continuesWord)
    let spelling := (g :: more).filterMap fun | .char c => some c | .stray _ => none
    (.word (String.ofList spelling), more.length)
  else
    match number? glyphs with
    | some (kind, size) => (kind, size - 1)
    | none =>
      if startsWith "\"\"\"" glyphs then
        match blockRest (rest.drop 2) with
        | some n => (.string, n + 2)
        | none => (.stray, 0)
      else if g.is '"' then
        match stringRest rest with
        | some n => (.string, n)
        | none => (.stray, 0)
      else if g.is '\'' then
        match characterRest true rest with
        | some n => (.character, n)
        | none => (.stray, 0)
      else
        match signs.find? (startsWith · glyphs) with
        | some s => (.sign s, s.length - 1)
        | none => (.stray, 0)

/-- The tokens from a place on. `gap` is what stands before the next one so far. -/
def readFrom (index line : Nat) (gap : List Glyph) (glyphs : List Glyph) : List Token :=
  match glyphs with
  | [] => [⟨.finish, index, gap, [], line⟩]
  | g :: rest =>
    match gapRest? g rest with
    | some n =>
      let piece := g :: rest.take n
      readFrom index (line + Glyph.lineFeeds piece) (gap ++ piece) (rest.drop n)
    | none =>
      let (kind, n) := kindAndRest g rest
      let t : Token := ⟨kind, index, gap, g :: rest.take n, line⟩
      t :: readFrom (index + 1) t.endLine [] (rest.drop n)
termination_by glyphs.length
decreasing_by all_goals simp only [List.length_drop, List.length_cons]; omega

def read (glyphs : List Glyph) : List Token := readFrom 0 1 [] glyphs

end Token

end LookupGen.Java
