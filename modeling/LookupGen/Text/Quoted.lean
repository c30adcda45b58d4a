import LookupGen.Text
import LookupGen.Unicode.Classes

/-!
# Quoted texts

How a text is shown between quotes in a message: unprintable code points, the quote and the
backslash are escaped.
-/

namespace LookupGen.Text

def hexDigit (n : Nat) : CodePoint :=
  if n < 10 then Fin.ofNat 0x110000 (0x30 + n) else Fin.ofNat 0x110000 (0x57 + n)

def hex : (width : Nat) → Nat → Text
  | 0, _ => []
  | width + 1, n => hex width (n / 16) ++ [hexDigit (n % 16)]

/-- The numbered escape of a code point, as short as its size allows. -/
def numberedEscape (c : CodePoint) : Text :=
  if c.val < 0x100 then "\\x" ++ hex 2 c.val
  else if c.val < 0x10000 then "\\u" ++ hex 4 c.val
  else "\\U" ++ hex 8 c.val

def quotedPoint (quote c : CodePoint) : Text :=
  if c = quote ∨ c = '\\' then ['\\', c]
  else if c = '\n' then "\\n"
  else if c = '\r' then "\\r"
  else if c = '\t' then "\\t"
  else if Unicode.isPrintable c then [c]
  else numberedEscape c

/-- The quote around a text: the single one, unless it occurs in the text and the double one
does not. -/
def quoteFor (t : Text) : CodePoint :=
  if t.contains (CodePoint.ofChar '\'') && !t.contains (CodePoint.ofChar '"') then '"' else '\''

def quoted (t : Text) : Text :=
  let quote := quoteFor t
  quote :: (t.flatMap (quotedPoint quote) ++ [quote])

end LookupGen.Text
