import LookupGen.Yaml.Token.Scan

/-!
# Directives, anchors and tags

The tokens that name something: directives at the start of a line, anchors and aliases, and
tags, whose names are addresses with escaped bytes.
-/

namespace LookupGen.Yaml.Scan

def isUriPoint (c : CodePoint) : Bool :=
  isWordPoint c || (Text.ofString ";/?:@&=+$,.!~*'()[]").contains c

/-- A handle of tags: `!`, or a word between two of them. -/
def tagHandle (activity : Activity) (since : Mark) : Scan Text := do
  unless (← peek) = '!' do refuseNext activity since .exclamation
  if (← peekAt 1) = ' ' then take 1
  else
    let size := 1 + (((← get).rest.drop 1).takeWhile isWordPoint).length
    if (← peekAt size) = '!' then take (size + 1)
    else
      skip size
      refuseNext activity since .exclamation

def uriBytes (activity : Activity) (since : Mark) : (fuel : Nat) → Scan Bytes
  | 0 => return []
  | fuel + 1 => do
    if (← peek) = '%' then
      skip 1
      match (← peek).hexDigit?, (← peekAt 1).hexDigit? with
      | some high, some low =>
        skip 2
        return UInt8.ofNat (16 * high + low) :: (← uriBytes activity since fuel)
      | some _, none => refuse activity since (.unexpected .uriDigits (← peekAt 1))
      | none, _ => refuseNext activity since .uriDigits
    else return []

def uriEscapes (activity : Activity) (since : Mark) : Scan Text := do
  let here ← place
  let bytes ← uriBytes activity since (← get).rest.length
  match Utf8.decode bytes with
  | .ok t => return t
  | .error e => refuseAt (some activity) (some since) (.badUri e) here

def uriParts (activity : Activity) (since : Mark) : (fuel : Nat) → Scan Text
  | 0 => return []
  | fuel + 1 => do
    let run ← takeWhile isUriPoint
    if (← peek) = '%' then
      let escaped ← uriEscapes activity since
      return Text.join [run, escaped, ← uriParts activity since fuel]
    else return run

/-- An address, which is not empty. `reading` is what an empty one is reported with. -/
def uri (activity reading : Activity) (since : Mark) : Scan Text := do
  let c ← peek
  unless isUriPoint c || c = '%' do refuseNext reading since .uri
  uriParts activity since ((← get).rest.length + 1)

def directiveNumber (since : Mark) : Scan Nat := do
  let digits ← takeWhile fun c => c.digit?.isSome
  if digits.isEmpty then refuseNext .directive since .digit
  else return (Text.digits? 10 CodePoint.digit? digits).getD 0

def version (since : Mark) : Scan Directive := do
  skipSpaces
  let major ← directiveNumber since
  unless (← peek) = '.' do refuseNext .directive since .digitOrDot
  skip 1
  let minor ← directiveNumber since
  unless endsWord (← peek) do refuseNext .directive since .digitOrSpace
  return .version major minor

def handle (since : Mark) : Scan Directive := do
  skipSpaces
  let name ← tagHandle .directive since
  unless (← peek) = ' ' do refuseNext .directive since .space
  skipSpaces
  let replacement ← uri .directive .directiveUri since
  unless endsWord (← peek) do refuseNext .directive since .space
  return .handle name replacement

def word (activity : Activity) (since : Mark) : Scan Text := do
  let name ← takeWhile isWordPoint
  if name.isEmpty then refuseNext activity since .word
  else return name

def directive : Scan Token := do
  let start ← place
  skip 1
  let name ← word .directive start
  unless endsWord (← peek) do refuseNext .directive start .word
  let d ←
    if name = "YAML" then version start
    else if name = "TAG" then handle start
    else pure .other
  let stop ← place
  if d = .other then skipWhile fun c => !endsLine c
  finishLine .directive start
  return ⟨.directive d, start, stop⟩

def endsName (c : CodePoint) : Bool := endsItem c || (Text.ofString "?:,]\x7d%@`").contains c

def namedBy (activity : Activity) (kind : Text → TokenKind) : Scan Token := do
  let start ← place
  skip 1
  let name ← word activity start
  unless endsName (← peek) do refuseNext activity start .word
  return ⟨kind name, start, ← place⟩

/-- A tag: a whole address in angle brackets, the sign alone, or a handle and a name. -/
def tag : Scan Token := do
  let start ← place
  let c ← peekAt 1
  let kind ←
    if c = '<' then
      skip 2
      let name ← uri .tag .tagUri start
      unless (← peek) = '>' do refuseNext .tagUri start .closingBracket
      skip 1
      pure (TokenKind.tag none name)
    else if endsItem c then
      skip 1
      pure (TokenKind.tag none "!")
    else
      let written := ((← get).rest.drop 1).takeWhile fun c => !endsWord c
      let handle ←
        if written.contains (CodePoint.ofChar '!') then tagHandle .tag start else take 1
      pure (TokenKind.tag (some handle) (← uri .tag .tagUri start))
  unless endsWord (← peek) do refuseNext .tag start .space
  return ⟨kind, start, ← place⟩

end LookupGen.Yaml.Scan
