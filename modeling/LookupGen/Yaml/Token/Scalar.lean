import LookupGen.Yaml.Token.Scan

/-!
# Scalars

The three forms of a text in a document: plain, between quotes, and as an indented block. In all
of them line ends are folded: a single one is a space, and of several ones all but the first stay.
-/

namespace LookupGen.Yaml.Scan

/-- What the line ends between two lines become, given the first one and those after it. -/
def folded (first more : Text) : Text :=
  if first ≠ [0x0A] then first ++ more
  else if more.isEmpty then [CodePoint.ofChar ' ']
  else more

/-- The line ends after a first one, with the spaces around them passed over; nothing where a
document separator follows one of them. -/
def plainBreaks : (fuel : Nat) → Scan (Option Text)
  | 0 => return some []
  | fuel + 1 => do
    skipSpaces
    if isBreak (← peek) then
      let line ← takeBreak
      if (← get).isAtSeparator then return none
      return (← plainBreaks fuel).map (line ++ ·)
    else return some []

/-- The blanks between two parts of a plain scalar, and whether a line ends in them. They are
empty where the scalar cannot go on. -/
def plainBlanks : Scan (Text × Bool) := do
  let spaces ← takeWhile fun c => c.val == 0x20
  if isBreak (← peek) then
    let first ← takeBreak
    if (← get).isAtSeparator then return ([], true)
    match ← plainBreaks ((← get).rest.length + 1) with
    | none => return ([], true)
    | some more => return (folded first more, true)
  else return (spaces, false)

def isFlowSign (c : CodePoint) : Bool := (Text.ofString ",?[]\x7b\x7d").contains c

def isFlowSignAfterColon (c : CodePoint) : Bool := (Text.ofString ",[]\x7b\x7d").contains c

def plainSize (flow : Bool) : Text → Nat
  | [] => 0
  | c :: rest =>
    let next := rest.headD 0
    if endsItem c || (c = ':' && (endsItem next || (flow && isFlowSignAfterColon next))) ||
        (flow && isFlowSign c) then 0
    else 1 + plainSize flow rest

/-- The parts of a plain scalar behind some blanks, the place behind the last part, and whether a
line ended since. `indent` is the least column of a further line outside brackets. -/
def plainParts (flow : Bool) (indent : Int) :
    (fuel : Nat) → (blanks : Text) → (stop : Mark) → (lineEnded : Bool) → Scan (Text × Mark × Bool)
  | 0, _, stop, lineEnded => return ([], stop, lineEnded)
  | fuel + 1, blanks, stop, lineEnded => do
    let k ← get
    let size := plainSize flow k.rest
    if k.peek = '#' ∨ size = 0 then return ([], stop, lineEnded)
    else
      let part ← take size
      let here ← place
      let (next, ended) ← plainBlanks
      if next.isEmpty || (← peek) = '#' || (!flow && ((← place).column : Int) < indent) then
        return (blanks ++ part, here, ended)
      let (more, stop, ended) ← plainParts flow indent fuel next here ended
      return (Text.join [blanks, part, more], stop, ended)

def plain (flow : Bool) (indent : Int) : Scan (Token × Bool) := do
  let start ← place
  let (t, stop, lineEnded) ← plainParts flow indent ((← get).rest.length + 1) [] start false
  return (⟨.scalar t true, start, stop⟩, lineEnded)

def simpleEscape? (c : CodePoint) : Option CodePoint :=
  ([('0', 0x00), ('a', 0x07), ('b', 0x08), ('t', 0x09), ('\t', 0x09), ('n', 0x0A), ('v', 0x0B),
    ('f', 0x0C), ('r', 0x0D), ('e', 0x1B), (' ', 0x20), ('"', 0x22), ('\\', 0x5C), ('/', 0x2F),
    ('N', 0x85), ('_', 0xA0), ('L', 0x2028), ('P', 0x2029)] : List (CodePoint × CodePoint)).lookup c

def escapeDigits? (c : CodePoint) : Option Nat :=
  ([('x', 2), ('u', 4), ('U', 8)] : List (CodePoint × Nat)).lookup c

def quotedBreaks (start : Mark) : (fuel : Nat) → Scan Text
  | 0 => return []
  | fuel + 1 => do
    if (← get).isAtSeparator then refuse .quotedScalar start .documentSeparator
    skipWhile fun c => c.val == 0x20 || c.val == 0x09
    if isBreak (← peek) then
      let line ← takeBreak
      return line ++ (← quotedBreaks start fuel)
    else return []

def quotedBlanks (start : Mark) : Scan Text := do
  let blanks ← takeWhile fun c => c.val == 0x20 || c.val == 0x09
  let c ← peek
  if c = 0 then refuse .quotedScalar start .endOfStream
  else if isBreak c then
    let first ← takeBreak
    return folded first (← quotedBreaks start ((← get).rest.length + 1))
  else return blanks

/-- A greater number is not even compared with those of the code points. -/
def maxEscape : Nat := 0x7FFFFFFF

def numberedEscape (start : Mark) (count : Nat) : Scan Text := do
  let digits := (← get).rest.take count
  match Text.digits? 16 CodePoint.hexDigit? digits with
  | some n =>
    if digits.length < count then
      refuse .doubleQuoted start (.unexpected (.hexDigits count) 0)
    else if h : n < 0x110000 then
      skip count
      return [⟨n, h⟩]
    else throw (if n ≤ maxEscape then .value .notCodePoint else .tooGreat)
  | none =>
    let wrong := (digits.dropWhile fun c => c.hexDigit?.isSome).headD 0
    refuse .doubleQuoted start (.unexpected (.hexDigits count) wrong)

def escape (start : Mark) : Scan Text := do
  let c ← peek
  match simpleEscape? c, escapeDigits? c with
  | some d, _ =>
    skip 1
    return [d]
  | none, some count =>
    skip 1
    numberedEscape start count
  | none, none =>
    if isBreak c then
      let _ ← takeBreak
      quotedBreaks start ((← get).rest.length + 1)
    else refuse .doubleQuoted start (.unknownEscape c)

def isQuotedPoint (c : CodePoint) : Bool :=
  !(endsItem c || c = '\'' || c = '"' || c = '\\')

def quotedParts (double : Bool) (start : Mark) : (fuel : Nat) → Scan Text
  | 0 => return []
  | fuel + 1 => do
    let run ← takeWhile isQuotedPoint
    let c ← peek
    let part : Option Text ←
      if !double && c = '\'' && (← peekAt 1) = '\'' then
        skip 2
        pure (some [CodePoint.ofChar '\''])
      else if (double && c = '\'') || (!double && (c = '"' || c = '\\')) then
        skip 1
        pure (some [c])
      else if double && c = '\\' then
        skip 1
        pure (some (← escape start))
      else if c = (if double then '"' else '\'') then
        skip 1
        pure none
      else pure (some (← quotedBlanks start))
    match part with
    | none => return run
    | some t => return Text.join [run, t, ← quotedParts double start fuel]

def quoted (double : Bool) : Scan Token := do
  let start ← place
  skip 1
  let t ← quotedParts double start ((← get).rest.length + 1)
  return ⟨.scalar t false, start, ← place⟩

inductive Chomping where
  | keep
  | strip
  | clip
  deriving DecidableEq, Repr

def chomping? (c : CodePoint) : Option Chomping :=
  if c = '+' then some .keep else if c = '-' then some .strip else none

def indentation? (start : Mark) : Scan (Option Nat) := do
  match (← peek).digit? with
  | none => return none
  | some n =>
    if n = 0 then refuse .blockScalar start .zeroIndentation
    skip 1
    return some n

def chompingSign? : Scan (Option Chomping) := do
  let sign := chomping? (← peek)
  if sign.isSome then skip 1
  return sign

/-- The signs in the head of a block: chomping and indentation in either order. -/
def blockSigns (start : Mark) : Scan (Chomping × Option Nat) := do
  let before ← chompingSign?
  let indentation ← indentation? start
  let after ← if before.isNone && indentation.isSome then chompingSign? else pure none
  unless endsWord (← peek) do refuseNext .blockScalar start .blockIndicators
  return ((before.or after).getD .clip, indentation)

/-- The line ends before the first line of a block, and the greatest column that spaces lead to
on the way. -/
def blockLead : (fuel : Nat) → Scan (Text × Nat)
  | 0 => return ([], 0)
  | fuel + 1 => do
    let c ← peek
    if c.val = 0x20 then
      skip 1
      let column := (← place).column
      let (lines, greatest) ← blockLead fuel
      return (lines, max column greatest)
    else if isBreak c then
      let line ← takeBreak
      let (lines, greatest) ← blockLead fuel
      return (line ++ lines, greatest)
    else return ([], 0)

def skipIndent (indent : Nat) : Scan Unit := do
  let k ← get
  let spaces := (k.rest.takeWhile fun c => c.val == 0x20).length
  skip (min spaces (indent - k.mark.column))

def blockBreaks (indent : Nat) : (fuel : Nat) → Scan Text
  | 0 => return []
  | fuel + 1 => do
    skipIndent indent
    if isBreak (← peek) then
      let line ← takeBreak
      return line ++ (← blockBreaks indent fuel)
    else return []

def isAtBlockLine (indent : Nat) : Scan Bool := do
  let k ← get
  return k.mark.column = indent && k.peek ≠ 0

def isSpaceOrTab (c : CodePoint) : Bool := c.val == 0x20 || c.val == 0x09

/-- The lines of a block, the first of which comes behind some line ends. What is left is the end
of the last line and the line ends behind it. -/
def blockLines (fold : Bool) (indent : Nat) :
    (fuel : Nat) → (lead : Text) → Scan (Text × Text × Text)
  | 0, _ => return ([], [], [])
  | fuel + 1, lead => do
    let blankFirst := isSpaceOrTab (← peek)
    let line ← takeWhile fun c => !endsLine c
    let lineEnd ← takeBreak
    let breaks ← blockBreaks indent ((← get).rest.length + 1)
    if ← isAtBlockLine indent then
      let between :=
        if fold && lineEnd = [0x0A] && !blankFirst && !isSpaceOrTab ((← get).peek) then
          if breaks.isEmpty then [CodePoint.ofChar ' '] else []
        else lineEnd
      let (more, lineEnd, last) ← blockLines fold indent fuel breaks
      return (Text.join [lead, line, between, more], lineEnd, last)
    else return (lead ++ line, lineEnd, breaks)

def block (fold : Bool) (indent : Int) : Scan Token := do
  let start ← place
  skip 1
  let (chomping, indentation) ← blockSigns start
  finishLine .blockScalar start
  let least := (max (indent + 1) 1).toNat
  let fuel := (← get).rest.length + 1
  let (indent, lead) ← match indentation with
    | some n => do
      let indent := least + n - 1
      pure (indent, ← blockBreaks indent fuel)
    | none => do
      let (lines, greatest) ← blockLead fuel
      pure (max least greatest, lines)
  let (t, lineEnd, last) ←
    if ← isAtBlockLine indent then blockLines fold indent fuel lead else pure ([], [], lead)
  let tail := match chomping with
    | .strip => []
    | .clip => lineEnd
    | .keep => lineEnd ++ last
  return ⟨.scalar (t ++ tail) false, start, ← place⟩

end LookupGen.Yaml.Scan
