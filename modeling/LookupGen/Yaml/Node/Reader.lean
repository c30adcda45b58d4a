import LookupGen.Yaml.Node
import LookupGen.Yaml.Scalar
import LookupGen.Yaml.Token.Stream

/-!
# The tree of a document

The tree is read from the tokens. A failure of the tokens counts only when the tree needs a token
behind it, so an earlier fault of the tree is the one that is reported.
-/

namespace LookupGen.Yaml

structure Composer where
  tokens : List Token
  failure : Option Failure
  handles : List (Text × Text)
  anchors : List (Text × Node)

namespace Composer

abbrev Step := StateT Composer (Except Failure)

def peek : Step Token := do
  let s ← get
  match s.tokens, s.failure with
  | t :: _, _ => return t
  | [], some e => throw e
  | [], none => return ⟨.streamEnd, ⟨0, 0, 0⟩, ⟨0, 0, 0⟩⟩

def take : Step Token := do
  let t ← peek
  modify fun s => { s with tokens := s.tokens.drop 1 }
  return t

def isNext (kinds : List TokenKind) : Step Bool := do return kinds.contains (← peek).kind

def refuse {α : Type} (activity : Option Activity) (since : Option Mark) (problem : Problem)
    (place : Mark) : Step α :=
  throw (.document (.misread activity since problem place))

def refuseNext {α : Type} (activity : Activity) (since : Mark) (expected verb : Text) :
    Step α := do
  let t ← peek
  refuse (some activity) (some since) (.unexpectedToken expected verb t.kind.wording) t.start

def empty (start : Mark) : Node := .scalar (.core .null) start []

structure Properties where
  anchor : Option Text
  tag : Option Text
  start : Option Mark

def fullTag (start place : Mark) (handle : Option Text) (name : Text) : Step Text := do
  match handle with
  | none => return name
  | some handle =>
    match (← get).handles.lookup handle with
    | some replacement => return replacement ++ name
    | none => refuse (some .node) (some start) (.undefinedHandle handle) place

/-- The anchor and the tag of a node, in either order. -/
def properties : Step Properties := do
  let first ← peek
  match first.kind with
  | .anchor name =>
    let _ ← take
    let second ← peek
    match second.kind with
    | .tag handle suffix =>
      let _ ← take
      let tag ← fullTag first.start second.start handle suffix
      return ⟨some name, some tag, some first.start⟩
    | _ => return ⟨some name, none, some first.start⟩
  | .tag handle suffix =>
    let _ ← take
    let second ← peek
    match second.kind with
    | .anchor name =>
      let _ ← take
      let tag ← fullTag first.start first.start handle suffix
      return ⟨some name, some tag, some first.start⟩
    | _ =>
      let tag ← fullTag first.start first.start handle suffix
      return ⟨none, some tag, some first.start⟩
  | _ => return ⟨none, none, none⟩

/-- The tag `!` says no more than that there is a tag. -/
def isPlainTag (tag : Option Text) : Bool := tag = none || tag = some "!"

def tagOr (implicit : CoreTag) (tag : Option Text) : Tag :=
  match tag with
  | none => .core implicit
  | some t => if t = "!" then .core implicit else Tag.ofText t

def checkAnchor (p : Properties) (start : Mark) : Step Unit := do
  match p.anchor with
  | none => return
  | some name =>
    match (← get).anchors.lookup name with
    | none => return
    | some first => refuse (some (.firstAnchor name)) (some first.start) .secondAnchor start

def register (p : Properties) (n : Node) : Step Unit :=
  match p.anchor with
  | none => return
  | some name => modify fun s => { s with anchors := (name, n) :: s.anchors }

def scalar (p : Properties) (start : Mark) (t : Text) (implicit : CoreTag) : Step Node := do
  checkAnchor p start
  let n : Node := .scalar (tagOr implicit p.tag) start t
  register p n
  return n

def collection {α : Type} (p : Properties) (start : Mark) (kind : NodeKind) (implicit : CoreTag)
    (content : Step α) (make : Tag → Mark → α → Node) : Step Node := do
  checkAnchor p start
  let tag := tagOr implicit p.tag
  register p (.cycle kind tag start)
  let n := make tag start (← content)
  register p n
  return n

def nodeUnless (node : Step Node) (kinds : List TokenKind) (here : Mark) : Step Node := do
  if ← isNext kinds then return empty here else node

def valueNode (node : Step Node) (kinds : List TokenKind) : Step Node := do
  let t ← peek
  if t.kind = .value then
    let _ ← take
    nodeUnless node kinds t.stop
  else return empty t.start

mutual

/-- A node. `block` says whether it may be an indented block, `indentless` whether it may be a
sequence that is not indented by more than what is around it. The depth of the recursion is at
most `fuel`. -/
def node (fuel : Nat) (block indentless : Bool) : Step Node := do
  match fuel with
  | 0 => return empty ⟨0, 0, 0⟩
  | fuel + 1 =>
    let first ← peek
    match first.kind with
    | .alias name =>
      let _ ← take
      match (← get).anchors.lookup name with
      | some n => return n
      | none => refuse none none (.undefinedAlias name) first.start
    | _ =>
      let p ← properties
      let t ← peek
      let start := p.start.getD t.start
      match t.kind with
      | .scalar text plain =>
        let _ ← take
        let implicit :=
          if (plain && p.tag = none) || p.tag = some "!" then Scalar.implicitTag text else .str
        scalar p start text implicit
      | .flowSequenceStart =>
        collection p start .sequence .seq (do
          let _ ← take
          flowItems fuel t.start true) Node.sequence
      | .flowMappingStart =>
        collection p start .mapping .map (do
          let _ ← take
          flowPairs fuel t.start true) Node.mapping
      | .blockEntry =>
        if indentless then collection p start .sequence .seq (indentlessItems fuel) Node.sequence
        else noContent p start block
      | .blockSequenceStart =>
        if block then
          collection p start .sequence .seq (do
            let _ ← take
            blockItems fuel t.start) Node.sequence
        else noContent p start block
      | .blockMappingStart =>
        if block then
          collection p start .mapping .map (do
            let _ ← take
            blockPairs fuel t.start) Node.mapping
        else noContent p start block
      | _ => noContent p start block

/-- A node that has properties and no content; one without either is none. -/
def noContent (p : Properties) (start : Mark) (block : Bool) : Step Node := do
  if p.anchor.isSome || p.tag.isSome then
    scalar p start [] (if isPlainTag p.tag then .null else .str)
  else
    refuseNext (if block then .blockNode else .flowNode) start "the node content" "found"

def blockItems (fuel : Nat) (since : Mark) : Step (List Node) := do
  match fuel with
  | 0 => return []
  | fuel + 1 =>
    let t ← peek
    if t.kind = .blockEntry then
      let _ ← take
      let item ← nodeUnless (node fuel true false) [.blockEntry, .blockEnd] t.stop
      return item :: (← blockItems fuel since)
    else if t.kind = .blockEnd then
      let _ ← take
      return []
    else refuseNext .blockSequence since "<block end>" "found"

def indentlessItems (fuel : Nat) : Step (List Node) := do
  match fuel with
  | 0 => return []
  | fuel + 1 =>
    let t ← peek
    if t.kind = .blockEntry then
      let _ ← take
      let item ← nodeUnless (node fuel true false) [.blockEntry, .key, .value, .blockEnd] t.stop
      return item :: (← indentlessItems fuel)
    else return []

def blockPairs (fuel : Nat) (since : Mark) : Step (List (Node × Node)) := do
  match fuel with
  | 0 => return []
  | fuel + 1 =>
    let t ← peek
    if t.kind = .key then
      let _ ← take
      let key ← nodeUnless (node fuel true true) [.key, .value, .blockEnd] t.stop
      let value ← valueNode (node fuel true true) [.key, .value, .blockEnd]
      return (key, value) :: (← blockPairs fuel since)
    else if t.kind = .blockEnd then
      let _ ← take
      return []
    else refuseNext .blockMapping since "<block end>" "found"

/-- The entries of a sequence in brackets. An entry with the mark of a key is a mapping with one
pair. -/
def flowItems (fuel : Nat) (since : Mark) (first : Bool) : Step (List Node) := do
  match fuel with
  | 0 => return []
  | fuel + 1 =>
    unless first || (← isNext [.flowSequenceEnd]) do
      if ← isNext [.flowEntry] then
        let _ ← take
      else refuseNext .flowSequence since "',' or ']'" "got"
    let t ← peek
    if t.kind = .flowSequenceEnd then
      let _ ← take
      return []
    else if t.kind = .key then
      let _ ← take
      let key ← nodeUnless (node fuel false false) [.value, .flowEntry, .flowSequenceEnd] t.stop
      let value ← valueNode (node fuel false false) [.flowEntry, .flowSequenceEnd]
      return .mapping (.core .map) t.start [(key, value)] :: (← flowItems fuel since false)
    else
      let item ← node fuel false false
      return item :: (← flowItems fuel since false)

/-- The pairs of a mapping in braces. An entry without the mark of a key is a key without a
value. -/
def flowPairs (fuel : Nat) (since : Mark) (first : Bool) : Step (List (Node × Node)) := do
  match fuel with
  | 0 => return []
  | fuel + 1 =>
    unless first || (← isNext [.flowMappingEnd]) do
      if ← isNext [.flowEntry] then
        let _ ← take
      else refuseNext .flowMapping since "',' or '\x7d'" "got"
    let t ← peek
    if t.kind = .flowMappingEnd then
      let _ ← take
      return []
    else if t.kind = .key then
      let _ ← take
      let key ← nodeUnless (node fuel false false) [.value, .flowEntry, .flowMappingEnd] t.stop
      let value ← valueNode (node fuel false false) [.flowEntry, .flowMappingEnd]
      return (key, value) :: (← flowPairs fuel since false)
    else
      let key ← node fuel false false
      return (key, empty (← peek).start) :: (← flowPairs fuel since false)

end

def defaultHandles : List (Text × Text) := [("!", "!"), ("!!", Tag.coreLead)]

/-- The directives before a document, one for each step of `fuel` at most, given those read so
far. -/
def directives : (fuel : Nat) → (version : Bool) → (handles : List (Text × Text)) →
    Step (List (Text × Text))
  | 0, _, handles => return handles
  | fuel + 1, version, handles => do
    let t ← peek
    match t.kind with
    | .directive (.version major _) =>
      let _ ← take
      if version then refuse none none .duplicateVersion t.start
      else if major ≠ 1 then refuse none none .wrongVersion t.start
      else directives fuel true handles
    | .directive (.handle name replacement) =>
      let _ ← take
      if (handles.lookup name).isSome then refuse none none (.duplicateHandle name) t.start
      else directives fuel version ((name, replacement) :: handles)
    | .directive .other =>
      let _ ← take
      directives fuel version handles
    | _ => return handles

def skipEnds : (fuel : Nat) → Step Unit
  | 0 => return
  | fuel + 1 => do
    if ← isNext [.documentEnd] then
      let _ ← take
      skipEnds fuel

def markedStart (fuel : Nat) : Step (Option Mark) := do
  skipEnds fuel
  let t ← peek
  if t.kind = .streamEnd then return none
  else
    let handles ← directives fuel false []
    modify fun s => { s with handles := handles ++ defaultHandles }
    let next ← peek
    if next.kind = .documentStart then
      let _ ← take
      return some t.start
    else
      refuse none none (.unexpectedToken "'<document start>'" "found" next.kind.wording)
        next.start

def endsDocument : TokenKind → Bool
  | .directive _ => true
  | .documentStart => true
  | .documentEnd => true
  | .streamEnd => true
  | _ => false

/-- A token that shows that a document is marked, or that there is none. -/
def startsMarked : TokenKind → Bool
  | .directive _ => true
  | .documentStart => true
  | .streamEnd => true
  | _ => false

def document (fuel : Nat) : Step (Option Node) := do
  let _ ← take
  let t ← peek
  let root ←
    if startsMarked t.kind then
      match ← markedStart fuel with
      | none => pure none
      | some _ =>
        let t ← peek
        if endsDocument t.kind then pure (some (empty t.start))
        else pure (some (← node fuel true false))
    else
      modify fun s => { s with handles := defaultHandles }
      pure (some (← node fuel true false))
  match root with
  | none => return none
  | some n =>
    match ← markedStart fuel with
    | none => return some n
    | some place => refuse (some .singleDocument) (some n.start) .secondDocument place

end Composer

def Document.ofText (t : Text) : Except Failure Document :=
  let (ts, failure) := tokens t
  let fuel := 4 * ts.length + 16
  match (Composer.document fuel).run ⟨ts, failure, [], []⟩ with
  | .ok (root, _) => .ok ⟨root, fuel⟩
  | .error e => .error e

end LookupGen.Yaml
