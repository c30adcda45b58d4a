/-!
# Text

A text is a list of code points. Surrogate code points are ordinary members, so a text can hold
what no `String` can: half of a UTF-16 pair. Order, equality and positions are by code point. What
counts as white space and what ends a line are Unicode properties with the ASCII separators 1C to 1F
added.
-/

namespace LookupGen

/-- A code point, surrogates included. -/
abbrev CodePoint := Fin 0x110000

abbrev Text := List CodePoint

namespace CodePoint

/-- With this a numeral denotes a code point. -/
instance : @NeZero Nat ⟨0⟩ 0x110000 := ⟨by decide⟩

def ofChar (c : Char) : CodePoint :=
  ⟨c.toNat, by
    have h := c.valid
    simp only [UInt32.isValidChar, Nat.isValidChar] at h
    simp only [Char.toNat]
    omega⟩

instance : Coe Char CodePoint := ⟨ofChar⟩

def isHighSurrogate (c : CodePoint) : Bool := 0xD800 ≤ c.val && c.val ≤ 0xDBFF

def isLowSurrogate (c : CodePoint) : Bool := 0xDC00 ≤ c.val && c.val ≤ 0xDFFF

def isSurrogate (c : CodePoint) : Bool := 0xD800 ≤ c.val && c.val ≤ 0xDFFF

def digit? (c : CodePoint) : Option Nat :=
  if 0x30 ≤ c.val ∧ c.val ≤ 0x39 then some (c.val - 0x30) else none

def hexDigit? (c : CodePoint) : Option Nat :=
  if 0x30 ≤ c.val ∧ c.val ≤ 0x39 then some (c.val - 0x30)
  else if 0x61 ≤ c.val ∧ c.val ≤ 0x66 then some (c.val - 0x57)
  else if 0x41 ≤ c.val ∧ c.val ≤ 0x46 then some (c.val - 0x37)
  else none

def octalDigit? (c : CodePoint) : Option Nat :=
  if 0x30 ≤ c.val ∧ c.val ≤ 0x37 then some (c.val - 0x30) else none

end CodePoint

namespace Text

def ofString (s : String) : Text := s.toList.map CodePoint.ofChar

instance : Coe String Text := ⟨ofString⟩

def ofInt (n : Int) : Text := ofString (toString n)

def ofNat (n : Nat) : Text := ofString (toString n)

def join (ts : List Text) : Text := ts.flatten

def joinWith (sep : Text) : List Text → Text
  | [] => []
  | [t] => t
  | t :: u :: rest => t ++ sep ++ joinWith sep (u :: rest)

def startsWith (t p : Text) : Bool := p.isPrefixOf t

def endsWith (t s : Text) : Bool := s.isSuffixOf t

/-- The pieces between the occurrences of a code point, empty pieces included. -/
def splitAll (sep : CodePoint) : Text → List Text
  | [] => [[]]
  | c :: rest =>
    match splitAll sep rest with
    | [] => [[c]]
    | piece :: pieces => if c = sep then [] :: piece :: pieces else (c :: piece) :: pieces

def splitFirst (sep : CodePoint) : Text → Option (Text × Text)
  | [] => none
  | c :: rest =>
    if c = sep then some ([], rest)
    else (splitFirst sep rest).map fun (before, after) => (c :: before, after)

def splitLast (sep : CodePoint) : Text → Option (Text × Text)
  | [] => none
  | c :: rest =>
    match splitLast sep rest with
    | some (before, after) => some (c :: before, after)
    | none => if c = sep then some ([], rest) else none

def replace (old new : CodePoint) (t : Text) : Text := t.map fun c => if c = old then new else c

def dropEndWhile (p : CodePoint → Bool) (t : Text) : Text := (t.reverse.dropWhile p).reverse

def trim (p : CodePoint → Bool) (t : Text) : Text := dropEndWhile p (t.dropWhile p)

/-- The value of a run of digits in a base; a code point that is no digit of it gives nothing. -/
def digits? (base : Nat) (digit : CodePoint → Option Nat) (t : Text) : Option Nat :=
  t.foldlM (fun n c => (digit c).map (base * n + ·)) 0

def atMost (a b : Text) : Bool := decide (¬ b < a)

/-- The texts in ascending order; equal texts keep their order. -/
def sort (ts : List Text) : List Text := ts.mergeSort atMost

def isBlank (c : CodePoint) : Bool :=
  let n := c.val
  (0x09 ≤ n && n ≤ 0x0D) || (0x1C ≤ n && n ≤ 0x20) || n == 0x85 || n == 0xA0 || n == 0x1680 ||
  (0x2000 ≤ n && n ≤ 0x200A) || n == 0x2028 || n == 0x2029 || n == 0x202F || n == 0x205F ||
  n == 0x3000

def strip (t : Text) : Text := trim isBlank t

def isAllBlank (t : Text) : Bool := t.all isBlank

def isLineEnd (c : CodePoint) : Bool :=
  let n := c.val
  (0x0A ≤ n && n ≤ 0x0D) || (0x1C ≤ n && n ≤ 0x1E) || n == 0x85 || n == 0x2028 || n == 0x2029

/-- The lines of a text without their ends; CR LF is one end, and a last line end opens no line. -/
def lines : Text → List Text
  | [] => []
  | c :: rest =>
    if c.val = 0x0D ∧ rest.head? = some 0x0A then
      [] :: lines (rest.drop 1)
    else if isLineEnd c then
      [] :: lines rest
    else
      match lines rest with
      | [] => [[c]]
      | line :: more => (c :: line) :: more
termination_by t => t.length
decreasing_by all_goals (simp only [List.length_cons, List.length_drop]; omega)

def unifyLineEnds : Text → Text
  | [] => []
  | c :: rest =>
    if c.val = 0x0D then
      0x0A :: (if rest.head? = some 0x0A then unifyLineEnds (rest.drop 1) else unifyLineEnds rest)
    else c :: unifyLineEnds rest
termination_by t => t.length
decreasing_by all_goals (simp only [List.length_cons, List.length_drop]; omega)

theorem splitAll_ne_nil (sep : CodePoint) (t : Text) : splitAll sep t ≠ [] := by
  cases t with
  | nil => simp [splitAll]
  | cons c rest =>
    simp only [splitAll]
    split
    · simp
    · split <;> simp

end Text

end LookupGen
