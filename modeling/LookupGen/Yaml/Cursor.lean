import LookupGen.Text

/-!
# Places in a document

A cursor is a place in the text of a document with what stands behind it. A mark is a place that
is kept for a message; with the text of the document it shows the line around it.
-/

namespace LookupGen.Yaml

/-- A place: how many code points stand before it, in which line and in which column it is. All
count from zero. -/
structure Mark where
  index : Nat
  line : Nat
  column : Nat
  deriving DecidableEq, Repr

structure Cursor where
  mark : Mark
  rest : Text
  deriving Repr

def isBreak (c : CodePoint) : Bool :=
  c.val == 0x0A || c.val == 0x0D || c.val == 0x85 || c.val == 0x2028 || c.val == 0x2029

/-- The end of a line or of the document. The end of the document is looked at as the code point
0, which no document contains. -/
def endsLine (c : CodePoint) : Bool := c.val == 0 || isBreak c

def endsWord (c : CodePoint) : Bool := c.val == 0x20 || endsLine c

def endsItem (c : CodePoint) : Bool := c.val == 0x09 || endsWord c

def isWordPoint (c : CodePoint) : Bool :=
  (0x30 ≤ c.val && c.val ≤ 0x39) || (0x41 ≤ c.val && c.val ≤ 0x5A) ||
  (0x61 ≤ c.val && c.val ≤ 0x7A) || c.val == 0x2D || c.val == 0x5F

/-- The byte order mark, which takes up no column. -/
def isByteOrderMark (c : CodePoint) : Bool := c.val == 0xFEFF

namespace Cursor

def ofText (t : Text) : Cursor := ⟨⟨0, 0, 0⟩, t⟩

def peekAt (k : Cursor) (n : Nat) : CodePoint := (k.rest.drop n).headD 0

def peek (k : Cursor) : CodePoint := k.rest.headD 0

/-- The place behind the next code point. CR LF is one line end. -/
def advance (k : Cursor) : Cursor :=
  match k.rest with
  | [] => k
  | c :: rest =>
    let m := k.mark
    if isBreak c && !(c.val == 0x0D && rest.head? == some 0x0A) then
      ⟨⟨m.index + 1, m.line + 1, 0⟩, rest⟩
    else if isByteOrderMark c then ⟨{ m with index := m.index + 1 }, rest⟩
    else ⟨⟨m.index + 1, m.line, m.column + 1⟩, rest⟩

def advanceBy : Nat → Cursor → Cursor
  | 0, k => k
  | n + 1, k => advanceBy n k.advance

/-- Three hyphens or dots that stand before a space or an end. -/
def isAtSeparator (k : Cursor) : Bool :=
  (Text.startsWith k.rest "---" || Text.startsWith k.rest "...") && endsItem (k.peekAt 3)

end Cursor

def shownSide : Nat := 36

def cutSide : Nat := 32

namespace Mark

def before (source : Text) (m : Mark) : Text :=
  let line := ((source.take m.index).reverse.takeWhile fun c => !endsLine c).reverse
  if line.length ≤ shownSide then line
  else Text.join [" ... ", line.drop (line.length - cutSide)]

def after (source : Text) (m : Mark) : Text :=
  let line := (source.drop m.index).takeWhile fun c => !endsLine c
  if line.length ≤ shownSide then line else Text.join [line.take cutSide, " ... "]

/-- How a place is reported: its numbers, which count from one here, its line, and an arrow below
the line. -/
def message (source : Text) (m : Mark) : Text :=
  let before := m.before source
  Text.join ["  in \"<unicode string>\", line ", Text.ofNat (m.line + 1), ", column ",
    Text.ofNat (m.column + 1), ":\n    ", before, m.after source, "\n    ",
    List.replicate before.length (CodePoint.ofChar ' '), "^"]

end Mark

end LookupGen.Yaml
