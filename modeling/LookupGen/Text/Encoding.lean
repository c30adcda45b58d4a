import LookupGen.Text.Quoted

/-!
# UTF-8 and UTF-16

Reading UTF-8 takes one character at a time: the first byte decides how many continuation bytes are
owed and the range of the first of them. A byte string that is not UTF-8 is refused with the extent
of the first fault. Writing is refused for surrogates, with the extent of the first run of them. In
UTF-16 a high surrogate and the low surrogate after it stand for one code point beyond FFFF.
-/

namespace LookupGen

abbrev Bytes := List UInt8

namespace Utf8

inductive Flaw where
  | start
  | continuation
  | truncated
  deriving DecidableEq, Repr

/-- A flaw and the number of bytes that it covers. -/
structure Fault where
  flaw : Flaw
  size : Nat
  deriving DecidableEq, Repr

/-- Reads the continuation bytes that are owed, the first of them between `low` and `high`.
`value` is what is read so far, `taken` the number of bytes it stands in. -/
def tail : (owed : Nat) → (low high value taken : Nat) → Bytes → Except Fault (Nat × Nat)
  | 0, _, _, value, taken, _ => .ok (value, taken)
  | _ + 1, _, _, _, taken, [] => .error ⟨.truncated, taken⟩
  | owed + 1, low, high, value, taken, b :: rest =>
    if low ≤ b.toNat ∧ b.toNat ≤ high then
      tail owed 0x80 0xBF (value * 64 + (b.toNat - 0x80)) (taken + 1) rest
    else .error ⟨.continuation, taken⟩

def first (b : UInt8) (rest : Bytes) : Except Fault (Nat × Nat) :=
  let n := b.toNat
  if n < 0x80 then .ok (n, 1)
  else if n < 0xC2 then .error ⟨.start, 1⟩
  else if n < 0xE0 then tail 1 0x80 0xBF (n - 0xC0) 1 rest
  else if n = 0xE0 then tail 2 0xA0 0xBF 0 1 rest
  else if n = 0xED then tail 2 0x80 0x9F (n - 0xE0) 1 rest
  else if n < 0xF0 then tail 2 0x80 0xBF (n - 0xE0) 1 rest
  else if n = 0xF0 then tail 3 0x90 0xBF 0 1 rest
  else if n < 0xF4 then tail 3 0x80 0xBF (n - 0xF0) 1 rest
  else if n = 0xF4 then tail 3 0x80 0x8F (n - 0xF0) 1 rest
  else .error ⟨.start, 1⟩

/-- Why bytes are not UTF-8: the fault, where it starts, and its first byte. -/
structure DecodeError where
  fault : Fault
  position : Nat
  byte : UInt8
  deriving DecidableEq, Repr

def Flaw.wording : Flaw → Text
  | .start => "invalid start byte"
  | .continuation => "invalid continuation byte"
  | .truncated => "unexpected end of data"

/-- How a stretch of `size` items from a position on is reported: one item is shown, more are
counted. -/
def stretch (one many shown : Text) (position size : Nat) : Text :=
  if size = 1 then Text.join [one, " ", shown, " in position ", Text.ofNat position]
  else
    Text.join [many, " in position ", Text.ofNat position, "-", Text.ofNat (position + size - 1)]

def DecodeError.message (e : DecodeError) : Text :=
  Text.join ["'utf-8' codec can't decode ",
    stretch "byte" "bytes" ("0x" ++ Text.hex 2 e.byte.toNat) e.position e.fault.size, ": ",
    e.fault.flaw.wording]

/-- Reads bytes from a position on, passing over the `skip` bytes that are already read. -/
def decodeFrom (position skip : Nat) : Bytes → Except DecodeError Text
  | [] => .ok []
  | b :: rest =>
    match skip with
    | skip + 1 => decodeFrom (position + 1) skip rest
    | 0 =>
      match first b rest with
      | .error fault => .error ⟨fault, position, b⟩
      | .ok (value, size) =>
        (decodeFrom (position + 1) (size - 1) rest).map (Fin.ofNat 0x110000 value :: ·)

def decode (bytes : Bytes) : Except DecodeError Text := decodeFrom 0 0 bytes

/-- The bytes of one code point; those of a surrogate are no UTF-8. -/
def encodePoint (c : CodePoint) : Bytes :=
  let n := c.val
  if n < 0x80 then [UInt8.ofNat n]
  else if n < 0x800 then [UInt8.ofNat (0xC0 + n / 64), UInt8.ofNat (0x80 + n % 64)]
  else if n < 0x10000 then
    [UInt8.ofNat (0xE0 + n / 4096), UInt8.ofNat (0x80 + n / 64 % 64), UInt8.ofNat (0x80 + n % 64)]
  else
    [UInt8.ofNat (0xF0 + n / 262144), UInt8.ofNat (0x80 + n / 4096 % 64),
      UInt8.ofNat (0x80 + n / 64 % 64), UInt8.ofNat (0x80 + n % 64)]

/-- Why a text has no UTF-8 form: where the first run of surrogates starts, how long it is, and
its first member. -/
structure EncodeError where
  position : Nat
  size : Nat
  point : CodePoint
  deriving DecidableEq, Repr

def EncodeError.message (e : EncodeError) : Text :=
  Text.join ["'utf-8' codec can't encode ",
    stretch "character" "characters" (Text.join ["'", Text.numberedEscape e.point, "'"])
      e.position e.size, ": surrogates not allowed"]

def firstSurrogates? (position : Nat) : Text → Option EncodeError
  | [] => none
  | c :: rest =>
    if c.isSurrogate then
      some ⟨position, 1 + (rest.takeWhile (·.isSurrogate)).length, c⟩
    else firstSurrogates? (position + 1) rest

def encode (t : Text) : Except EncodeError Bytes :=
  match firstSurrogates? 0 t with
  | some e => .error e
  | none => .ok (t.flatMap encodePoint)

end Utf8

namespace Utf16

def combine (high low : CodePoint) : CodePoint :=
  Fin.ofNat 0x110000 (0x10000 + (high.val - 0xD800) * 0x400 + (low.val - 0xDC00))

/-- Each high surrogate joined with the low surrogate right after it; other surrogates stay. -/
def joinPairs : Text → Text
  | [] => []
  | [c] => [c]
  | c :: d :: rest =>
    if c.isHighSurrogate && d.isLowSurrogate then combine c d :: joinPairs rest
    else c :: joinPairs (d :: rest)

end Utf16

end LookupGen
