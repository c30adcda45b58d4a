import LookupGen.Yaml.Token.Scalar
import LookupGen.Yaml.Token.Tag

/-!
# The tokens of a document

Tokens are read from the front. A token that may turn out to be a key is held back until its
colon is found or can no longer come, since the token that marks it as a key goes before it. So
when the reading fails, only the tokens before the first one that is held back are known.
-/

namespace LookupGen.Yaml

/-- A token that may be a key: its number, where it starts, and whether it has to be one. -/
structure PossibleKey where
  number : Nat
  mark : Mark
  required : Bool
  deriving DecidableEq, Repr

structure Scanner where
  cursor : Cursor
  flowLevel : Int
  /-- The column of the innermost block, -1 outside all blocks, and those of the blocks around. -/
  indent : Int
  indents : List Int
  allowKey : Bool
  /-- The possible key of each level of brackets. -/
  keys : List (Int × PossibleKey)
  tokens : List Token
  deriving Repr

namespace Scanner

abbrev Step := StateT Scanner (Except Failure)

def ofText (t : Text) : Scanner :=
  let k := Cursor.ofText t
  ⟨k, 0, -1, [], true, [], [⟨.streamStart, k.mark, k.mark⟩]⟩

def lift {α : Type} (m : Scan α) : Step α := do
  let s ← get
  let (a, cursor) ← m.run s.cursor
  set { s with cursor }
  return a

def inFlow (s : Scanner) : Bool := decide (s.flowLevel ≠ 0)

def column (s : Scanner) : Int := s.cursor.mark.column

/-- How many tokens are known to be in place: those before the first possible key. -/
def settled (s : Scanner) : Nat :=
  s.keys.foldl (fun n (_, key) => min n key.number) s.tokens.length

def add (ts : List Token) : Step Unit := modify fun s => { s with tokens := s.tokens ++ ts }

def setAllowKey (allow : Bool) : Step Unit := modify fun s => { s with allowKey := allow }

def missingColon {α : Type} (key : PossibleKey) : Step α :=
  lift (Scan.refuse .simpleKey key.mark .missingColon)

/-- A possible key must be followed by its colon on the same line within so many code points. -/
def maxKeySize : Nat := 1024

def isStale (s : Scanner) (key : PossibleKey) : Bool :=
  key.mark.line ≠ s.cursor.mark.line || s.cursor.mark.index - key.mark.index > maxKeySize

def dropStaleKeys : Step Unit := do
  let s ← get
  match s.keys.find? fun (_, key) => s.isStale key && key.required with
  | some (_, key) => missingColon key
  | none => set { s with keys := s.keys.filter fun (_, key) => !s.isStale key }

def currentKey? (s : Scanner) : Option PossibleKey := s.keys.lookup s.flowLevel

def forgetKey (s : Scanner) : Scanner :=
  { s with keys := s.keys.filter fun (level, _) => level ≠ s.flowLevel }

def dropKey : Step Unit := do
  let s ← get
  match s.currentKey? with
  | none => return
  | some key => if key.required then missingColon key else set s.forgetKey

def saveKey : Step Unit := do
  let s ← get
  if s.allowKey then
    dropKey
    modify fun s =>
      let required := !s.inFlow && decide (s.indent = s.column)
      { s with keys := (s.flowLevel, ⟨s.tokens.length, s.cursor.mark, required⟩) :: s.keys }

def unwind (column : Int) : Step Unit := modify fun s =>
  if s.inFlow then s
  else
    let blocks := s.indent :: s.indents
    let ended := (blocks.takeWhile fun indent => decide (column < indent)).length
    let left := blocks.drop ended
    let mark := s.cursor.mark
    { s with
      indent := left.headD (-1)
      indents := left.drop 1
      tokens := s.tokens ++ List.replicate ended ⟨.blockEnd, mark, mark⟩ }

def openBlock (column : Int) (place : Nat) (kind : TokenKind) (mark : Mark) : Step Unit :=
  modify fun s =>
    if s.indent < column then
      { s with
        indent := column
        indents := s.indent :: s.indents
        tokens := s.tokens.insertIdx place ⟨kind, mark, mark⟩ }
    else s

def openBlockHere (kind : TokenKind) : Step Unit := do
  let s ← get
  openBlock s.column s.tokens.length kind s.cursor.mark

def sign (size : Nat) (kind : TokenKind) : Step Unit := do
  let start ← lift Scan.place
  lift (Scan.skip size)
  add [⟨kind, start, ← lift Scan.place⟩]

def requireAllowed (what : Text) : Step Unit := do
  let s ← get
  unless s.allowKey do lift (Scan.refuseAt none none (.notAllowed what) s.cursor.mark)

def skipToToken : (fuel : Nat) → Step Unit
  | 0 => return
  | fuel + 1 => do
    lift Scan.skipSpaces
    lift Scan.skipComment
    let line ← lift Scan.takeBreak
    unless line.isEmpty do
      unless (← get).inFlow do setAllowKey true
      skipToToken fuel

def finish : Step Unit := do
  unwind (-1)
  dropKey
  modify fun s => { s with allowKey := false, keys := [] }
  sign 0 .streamEnd

def endBlocks : Step Unit := do
  unwind (-1)
  dropKey
  setAllowKey false

def openFlow (kind : TokenKind) : Step Unit := do
  saveKey
  modify fun s => { s with flowLevel := s.flowLevel + 1, allowKey := true }
  sign 1 kind

def closeFlow (kind : TokenKind) : Step Unit := do
  dropKey
  modify fun s => { s with flowLevel := s.flowLevel - 1, allowKey := false }
  sign 1 kind

def flowEntry : Step Unit := do
  setAllowKey true
  dropKey
  sign 1 .flowEntry

def blockEntry : Step Unit := do
  unless (← get).inFlow do
    requireAllowed "sequence entries"
    openBlockHere .blockSequenceStart
  setAllowKey true
  dropKey
  sign 1 .blockEntry

def explicitKey : Step Unit := do
  unless (← get).inFlow do
    requireAllowed "mapping keys"
    openBlockHere .blockMappingStart
  setAllowKey !(← get).inFlow
  dropKey
  sign 1 .key

/-- The colon before a value. What may be a key before it is one. -/
def value : Step Unit := do
  let s ← get
  match s.currentKey? with
  | some key =>
    set { s.forgetKey with
      tokens := s.tokens.insertIdx key.number ⟨.key, key.mark, key.mark⟩
      allowKey := false }
    unless s.inFlow do openBlock key.mark.column key.number .blockMappingStart key.mark
  | none =>
    unless s.inFlow do
      requireAllowed "mapping values"
      openBlockHere .blockMappingStart
    setAllowKey !s.inFlow
    dropKey
  sign 1 .value

def keyToken (m : Scan Token) : Step Unit := do
  saveKey
  setAllowKey false
  add [← lift m]

def block (fold : Bool) : Step Unit := do
  setAllowKey true
  dropKey
  add [← lift (Scan.block fold (← get).indent)]

/-- A plain scalar. Behind it a key may start only on another line. -/
def plain : Step Unit := do
  saveKey
  let s ← get
  let (t, lineEnded) ← lift (Scan.plain s.inFlow (s.indent + 1))
  add [t]
  setAllowKey lineEnded

def startsPlain (s : Scanner) (c next : CodePoint) : Bool :=
  !(endsItem c || (Text.ofString "-?:,[]\x7b\x7d#&*!|>'\"%@`").contains c) ||
  (!endsItem next && (c = '-' || (!s.inFlow && (c = '?' || c = ':'))))

def next : Step Bool := do
  let s ← get
  if s.cursor.mark.index = 0 ∧ isByteOrderMark s.cursor.peek then lift (Scan.skip 1)
  skipToToken (s.cursor.rest.length + 1)
  dropStaleKeys
  unwind (← get).column
  let s ← get
  let c := s.cursor.peek
  let after := s.cursor.peekAt 1
  let lineStart := s.cursor.mark.column = 0
  let standsAlone := s.inFlow || endsItem after
  if c = 0 then
    finish
    return true
  if c = '%' ∧ lineStart then
    endBlocks
    add [← lift Scan.directive]
  else if c = '-' ∧ lineStart ∧ s.cursor.isAtSeparator then
    endBlocks
    sign 3 .documentStart
  else if c = '.' ∧ lineStart ∧ s.cursor.isAtSeparator then
    endBlocks
    sign 3 .documentEnd
  else if c = '[' then openFlow .flowSequenceStart
  else if c = '\x7b' then openFlow .flowMappingStart
  else if c = ']' then closeFlow .flowSequenceEnd
  else if c = '\x7d' then closeFlow .flowMappingEnd
  else if c = ',' then flowEntry
  else if c = '-' ∧ endsItem after then blockEntry
  else if c = '?' ∧ standsAlone then explicitKey
  else if c = ':' ∧ standsAlone then value
  else if c = '*' then keyToken (Scan.namedBy .alias .alias)
  else if c = '&' then keyToken (Scan.namedBy .anchor .anchor)
  else if c = '!' then keyToken Scan.tag
  else if c = '|' ∧ !s.inFlow then block false
  else if c = '>' ∧ !s.inFlow then block true
  else if c = '\'' then keyToken (Scan.quoted false)
  else if c = '"' then keyToken (Scan.quoted true)
  else if s.startsPlain c after then plain
  else lift (Scan.refuseAt (some .nextToken) none (.noToken c) s.cursor.mark)
  return false

/-- Reads tokens up to the last one or up to a failure, one for each step of `fuel` at most. -/
def run : (fuel : Nat) → Scanner → List Token × Option Failure
  | 0, s => (s.tokens, none)
  | fuel + 1, s =>
    match next.run s with
    | .error e => (s.tokens.take s.settled, some e)
    | .ok (true, after) => (after.tokens, none)
    | .ok (false, after) =>
      match dropStaleKeys.run after with
      | .error e => (s.tokens.take s.settled, some e)
      | .ok ((), kept) => run fuel kept

end Scanner

def isAcceptable (c : CodePoint) : Bool :=
  let n := c.val
  n == 0x09 || n == 0x0A || n == 0x0D || (0x20 ≤ n && n ≤ 0x7E) || n == 0x85 ||
  (0xA0 ≤ n && n ≤ 0xD7FF) || (0xE000 ≤ n && n ≤ 0xFFFD) || 0x10000 ≤ n

/-- The tokens of a text, as far as they can be read, and why not all of them can. -/
def tokens (t : Text) : List Token × Option Failure :=
  match t.dropWhile isAcceptable with
  | c :: rest => ([], some (.document (.unacceptable c (t.length - (rest.length + 1)))))
  | [] => Scanner.run (t.length + 2) (Scanner.ofText t)

end LookupGen.Yaml
