import LookupGen.Text.Encoding

/-!
# Source text

A source file is bytes. Bytes that are UTF-8 are read as characters; a byte that belongs to no
character is kept as it is, since a comment may hold anything. Only the text of a name or of a
literal has to be UTF-8.
-/

namespace LookupGen.Java

/-- A character of a source file, or a byte that belongs to none. -/
inductive Glyph where
  | char (c : Char)
  | stray (b : UInt8)
  deriving DecidableEq, Repr

/-- The text of a part of a source file, unless the part is not UTF-8. -/
abbrev Written := Except Utf8.DecodeError Text

namespace Glyph

def satisfies (p : Char → Bool) : Glyph → Bool
  | char c => p c
  | stray _ => false

def is (c : Char) (g : Glyph) : Bool := g.satisfies (· == c)

def bytes : Glyph → Bytes
  | char c => Utf8.encodePoint (CodePoint.ofChar c)
  | stray b => [b]

/-- The glyphs of bytes, after passing over the `skip` bytes that are already read. -/
def readFrom (skip : Nat) : Bytes → List Glyph
  | [] => []
  | b :: rest =>
    match skip with
    | skip + 1 => readFrom skip rest
    | 0 =>
      match Utf8.first b rest with
      | .ok (value, size) => char (Char.ofNat value) :: readFrom (size - 1) rest
      | .error _ => stray b :: readFrom 0 rest

/-- The glyphs of a source file. A byte order mark at its front is not part of it. -/
def read (bytes : Bytes) : List Glyph :=
  match readFrom 0 bytes with
  | char '\uFEFF' :: rest => rest
  | glyphs => glyphs

def text (glyphs : List Glyph) : Written := Utf8.decode (glyphs.flatMap bytes)

def lineFeeds (glyphs : List Glyph) : Nat := glyphs.countP (is '\n')

end Glyph

end LookupGen.Java
