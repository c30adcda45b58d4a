import LookupGen.Yaml.Error
import LookupGen.Yaml.Token

/-!
# Reading the text of a document

The steps from which the readers of tokens are made: to look ahead, to take code points, to pass
over a line end, and to give up.
-/

namespace LookupGen.Yaml

abbrev Scan := StateT Cursor (Except Failure)

namespace Scan

def peek : Scan CodePoint := do return (← get).peek

def peekAt (n : Nat) : Scan CodePoint := do return (← get).peekAt n

def place : Scan Mark := do return (← get).mark

def skip (n : Nat) : Scan Unit := modify (Cursor.advanceBy n)

def take (n : Nat) : Scan Text := do
  let t := (← get).rest.take n
  skip n
  return t

def takeWhile (p : CodePoint → Bool) : Scan Text := do
  let t := (← get).rest.takeWhile p
  skip t.length
  return t

def skipWhile (p : CodePoint → Bool) : Scan Unit := do
  let _ ← takeWhile p

def skipSpaces : Scan Unit := skipWhile fun c => c.val == 0x20

def skipComment : Scan Unit := do
  if (← peek) = '#' then skipWhile fun c => !endsLine c

/-- Takes a line end, if one is here: a line or paragraph separator as it is, any other one as
LF. -/
def takeBreak : Scan Text := do
  let c ← peek
  if c.val = 0x2028 ∨ c.val = 0x2029 then
    skip 1
    return [c]
  else if isBreak c then
    skip (if c.val = 0x0D ∧ (← peekAt 1).val = 0x0A then 2 else 1)
    return [0x0A]
  else return []

def refuseAt {α : Type} (activity : Option Activity) (since : Option Mark) (problem : Problem)
    (place : Mark) : Scan α :=
  throw (.document (.misread activity since problem place))

def refuse {α : Type} (activity : Activity) (since : Mark) (problem : Problem) : Scan α := do
  refuseAt (some activity) (some since) problem (← place)

def refuseNext {α : Type} (activity : Activity) (since : Mark) (expected : Expectation) :
    Scan α := do
  refuse activity since (.unexpected expected (← peek))

/-- Passes over the rest of a line, which holds nothing but a comment. -/
def finishLine (activity : Activity) (since : Mark) : Scan Unit := do
  skipSpaces
  skipComment
  unless endsLine (← peek) do refuseNext activity since .commentOrBreak
  let _ ← takeBreak

end Scan

end LookupGen.Yaml
