import LookupGen.Text

/-!
# Glob patterns

A pattern matches whole texts. `*` stands for any text, `?` for any code point, a class in
brackets for one of its members or, after `!`, for any other code point. A slash is a code point
like all others. A bracket that no other one closes stands for itself.

A text is matched by the set of its suffixes that are still to be read, longest first, so the
work grows with the length of the pattern times that of the text.
-/

namespace LookupGen

/-- The code points between bounds, or all others. -/
structure PointClass where
  negated : Bool
  ranges : List (CodePoint × CodePoint)
  deriving DecidableEq, Repr

namespace PointClass

def all : PointClass := ⟨true, []⟩

def single (c : CodePoint) : PointClass := ⟨false, [(c, c)]⟩

def contains (p : PointClass) (c : CodePoint) : Bool :=
  (p.ranges.any fun (low, high) => decide (low ≤ c) && decide (c ≤ high)) != p.negated

/-- The pieces of the text between brackets, cut at the hyphens that stand for a range. The first
`skip` code points of a piece are no such hyphens. -/
def pieces (skip : Nat) : Text → List Text
  | [] => [[]]
  | c :: rest =>
    if skip = 0 ∧ c = '-' then [] :: pieces 2 rest
    else
      match pieces (skip - 1) rest with
      | [] => [[c]]
      | piece :: more => (c :: piece) :: more

/-- A hyphen at the end stands for itself. -/
def closePieces : List Text → List Text
  | [] => []
  | [piece, []] => [piece ++ [CodePoint.ofChar '-']]
  | piece :: rest => piece :: closePieces rest

def isEmptyRange (before after : Text) : Bool :=
  match before.getLast?, after.head? with
  | some low, some high => decide (high < low)
  | _, _ => false

/-- Pieces between which the range is empty are joined without its bounds. -/
def dropEmptyRanges : List Text → List Text
  | [] => []
  | piece :: rest =>
    match dropEmptyRanges rest with
    | [] => [piece]
    | next :: more =>
      if isEmptyRange piece next then (piece.dropLast ++ next.drop 1) :: more
      else piece :: next :: more

inductive Mark where
  | point (c : CodePoint)
  | range
  deriving DecidableEq, Repr

def marks : List Text → List Mark
  | [] => []
  | [piece] => piece.map Mark.point
  | piece :: rest => piece.map Mark.point ++ Mark.range :: marks rest

/-- The ranges that marks denote. A range without a lower bound stands for a hyphen. -/
def rangesOf : List Mark → List (CodePoint × CodePoint)
  | [] => []
  | .point low :: .range :: .point high :: rest => (low, high) :: rangesOf rest
  | .point c :: rest => (c, c) :: rangesOf rest
  | .range :: rest => (CodePoint.ofChar '-', CodePoint.ofChar '-') :: rangesOf rest

def ofMarks : List Mark → PointClass
  | .point c :: rest =>
    if c = '!' then ⟨true, rangesOf rest⟩ else ⟨false, rangesOf (.point c :: rest)⟩
  | ms => ⟨false, rangesOf ms⟩

def ofBody (body : Text) : PointClass :=
  let skip := if body.head? = some (CodePoint.ofChar '!') then 2 else 1
  ofMarks (marks (dropEmptyRanges (closePieces (pieces skip body))))

end PointClass

namespace Glob

inductive Piece where
  | anyText
  | one (p : PointClass)
  deriving DecidableEq, Repr

end Glob

abbrev Glob := List Glob.Piece

namespace Glob

def takeIf (c : CodePoint) (t : Text) : Text × Text :=
  if t.head? = some c then ([c], t.drop 1) else ([], t)

/-- What stands between an opened bracket and the one that closes it, and the rest. A closing
bracket directly at the front, or behind `!` there, is a member of the class. -/
def bracketBody? (t : Text) : Option (Text × Text) :=
  let (mark, t) := takeIf '!' t
  let (bracket, t) := takeIf ']' t
  (Text.splitFirst ']' t).map fun (body, rest) => (mark ++ bracket ++ body, rest)

def read (skip : Nat) : Text → Glob
  | [] => []
  | c :: rest =>
    match skip with
    | skip + 1 => read skip rest
    | 0 =>
      if c = '*' then .anyText :: read 0 rest
      else if c = '?' then .one .all :: read 0 rest
      else if c = '[' then
        match bracketBody? rest with
        | some (body, _) => .one (PointClass.ofBody body) :: read (body.length + 1) rest
        | none => .one (PointClass.single c) :: read 0 rest
      else .one (PointClass.single c) :: read 0 rest

def ofText (t : Text) : Glob := read 0 t

/-- A text and what is left of it after each of its code points, longest first. -/
def suffixes : Text → List Text
  | [] => [[]]
  | c :: rest => (c :: rest) :: suffixes rest

/-- What may be left after one piece, given what may be left before it, longest first. -/
def Piece.step : Piece → List Text → List Text
  | _, [] => []
  | anyText, longest :: _ => suffixes longest
  | one p, left => left.filterMap fun
    | [] => none
    | c :: rest => if p.contains c then some rest else none

def isMatch (g : Glob) (t : Text) : Bool :=
  (g.foldl (fun left piece => piece.step left) [t]).any List.isEmpty

end Glob

end LookupGen
