import LookupGen.Yaml.Node.Reader
import LookupGen.Yaml.Scalar.Tagged

/-!
# Values of documents

A document has a value if all its nodes fit their tags. The nodes are checked level by level from
the root, scalars with the collection that holds them. Of numbers, times and binary data no more
is kept than that they are there.
-/

namespace LookupGen.Yaml

inductive Value where
  | null
  | text (t : Text)
  | list (items : List Value)
  /-- A mapping: of several pairs with the same key the last one holds. -/
  | mapping (pairs : List (Value × Value))
  | other
  deriving Inhabited

namespace Node

def refuse {α : Type} (activity : Option Activity) (since : Option Mark) (problem : Problem)
    (n : Node) : Except Failure α :=
  throw (.document (.misread activity since problem n.start))

def wrongKind {α : Type} (expected : Text) (n : Node) : Except Failure α :=
  refuse none none (.unexpectedNode expected n.kind.wording) n

mutual

def scalarText : Node → Except Failure Text
  | .scalar _ _ text => return text
  | .mapping tag start pairs => standIn (.mapping tag start pairs) pairs
  | n => wrongKind "a scalar node" n

def standIn (whole : Node) : List (Node × Node) → Except Failure Text
  | [] => wrongKind "a scalar node" whole
  | (key, value) :: rest =>
    if key.tag = .core .value then scalarText value else standIn whole rest

end

/-- A key that stands for its mapping is a string like others where the mapping is read as such. -/
def asPlainKey : Node → Node
  | .scalar (.core .value) start text => .scalar (.core .str) start text
  | n => n

def mergeRefusal {α : Type} (whole : Mark) (expected : Text) (n : Node) : Except Failure α :=
  refuse (some .mapping) (some whole) (.unexpectedNode expected n.kind.wording) n

mutual

/-- The pairs of a mapping with those of the mappings merged into it in front. `whole` is where
the mapping starts. -/
def mergedPairs (whole : Mark) :
    List (Node × Node) → Except Failure (List (Node × Node) × List (Node × Node))
  | [] => return ([], [])
  | (key, value) :: rest =>
    if key.tag = .core .merge then do
      let pairs ← merged whole value
      let (more, own) ← mergedPairs whole rest
      return (pairs ++ more, own)
    else do
      let (more, own) ← mergedPairs whole rest
      return (more, (key.asPlainKey, value) :: own)

def merged (whole : Mark) : Node → Except Failure (List (Node × Node))
  | .mapping _ start pairs => do
    let (front, own) ← mergedPairs start pairs
    return front ++ own
  | .sequence _ _ items => mergedItems whole items
  | .cycle .mapping _ _ => return []
  | .cycle .sequence _ _ => return []
  | n => mergeRefusal whole "a mapping or list of mappings for merging" n

/-- The pairs of several mappings, those of later ones in front. -/
def mergedItems (whole : Mark) : List Node → Except Failure (List (Node × Node))
  | [] => return []
  | .mapping _ start pairs :: rest => do
    let (front, own) ← mergedPairs start pairs
    return (← mergedItems whole rest) ++ (front ++ own)
  | .cycle .mapping _ _ :: rest => mergedItems whole rest
  | n :: _ => mergeRefusal whole "a mapping for merging" n

end

def pairs : Node → Except Failure (List (Node × Node))
  | .mapping _ start pairs => do
    let (front, own) ← mergedPairs start pairs
    return front ++ own
  | n => wrongKind "a mapping node" n

/-- The tags of collections, whose content is checked with the next level. -/
def isCollection : Tag → Bool
  | .core .seq => true
  | .core .map => true
  | .core .set => true
  | .core .omap => true
  | .core .pairs => true
  | _ => false

def truthWords : List Text := ["yes", "no", "true", "false", "on", "off"]

def checkDate (time : Scalar.Time) : Except Failure Unit :=
  let leap := time.year % 4 = 0 && (time.year % 100 ≠ 0 || time.year % 400 = 0)
  let days := [31, if leap then 29 else 28, 31, 30, 31, 30, 31, 31, 30, 31, 30, 31]
  if time.year = 0 then throw (.value (.outOfRange .year time.year))
  else
    match if time.month = 0 then none else days[time.month - 1]? with
    | none => throw (.value (.outOfRange .month time.month))
    | some size =>
      if time.day = 0 ∨ size < time.day then throw (.value (.outOfRange .day time.day))
      else return ()

def checkClock (hour minute second : Nat) : Except Failure Unit :=
  if 23 < hour then throw (.value (.outOfRange .hour hour))
  else if 59 < minute then throw (.value (.outOfRange .minute minute))
  else if 59 < second then throw (.value (.outOfRange .second second))
  else return ()

/-- Checks a time. An offset from universal time is less than a day. -/
def checkTime (t : Text) : Except Failure Unit :=
  match Scalar.time? (Scalar.withoutLineEnd t) with
  | none => throw .notTime
  | some time => do
    match time.clock, time.offset with
    | some _, some minutes =>
      if 1440 ≤ minutes.natAbs then throw (.value (.offset minutes))
    | _, _ => pure ()
    checkDate time
    match time.clock with
    | some (hour, minute, second) => checkClock hour minute second
    | none => pure ()

def checkScalar (n : Node) : Except Failure Unit :=
  match n.tag with
  | .core .null => do
    let _ ← n.scalarText
  | .core .str => do
    let _ ← n.scalarText
  | .core .bool => do
    unless truthWords.contains ((← n.scalarText).map Unicode.lower) do throw .notTruthValue
  | .core .int => do Scalar.checkInt (← n.scalarText)
  | .core .float => do Scalar.checkFloat (← n.scalarText)
  | .core .timestamp => do checkTime (← n.scalarText)
  | .core .binary => do
    match Scalar.binaryProblem? (← n.scalarText) with
    | some problem => refuse none none problem n
    | none => pure ()
  | tag => refuse none none (.unknownTag tag.toText) n

def check (n : Node) : Except Failure (List Node) :=
  match n with
  | .cycle _ _ _ => return []
  | n =>
    if isCollection n.tag then return [n]
    else do
      checkScalar n
      return []

def checkPairs (whole : Mark) : List (Node × Node) → Except Failure (List Node)
  | [] => return []
  | (key, value) :: rest => do
    let _ ← check key
    if isCollection key.tag then refuse (some .mapping) (some whole) .unhashableKey key
    return (← check value) ++ (← checkPairs whole rest)

def checkSinglePairs (activity : Activity) (whole : Mark) : List Node → Except Failure (List Node)
  | [] => return []
  | .mapping _ _ [(key, value)] :: rest => do
    return (← check key) ++ (← check value) ++ (← checkSinglePairs activity whole rest)
  | .mapping tag start pairs :: _ =>
    refuse (some activity) (some whole) (.severalItems pairs.length) (.mapping tag start pairs)
  | .cycle .mapping _ _ :: rest => checkSinglePairs activity whole rest
  | n :: _ =>
    refuse (some activity) (some whole)
      (.unexpectedNode "a mapping of length 1" n.kind.wording) n

def checkPairList (activity : Activity) (n : Node) : Except Failure (List Node) :=
  match n with
  | .sequence _ start items => checkSinglePairs activity start items
  | n => refuse (some activity) (some n.start) (.unexpectedNode "a sequence" n.kind.wording) n

def checkContent (n : Node) : Except Failure (List Node) :=
  match n.tag with
  | .core .seq =>
    match n with
    | .sequence _ _ items => (items.mapM check).map List.flatten
    | n => wrongKind "a sequence node" n
  | .core .omap => checkPairList .orderedMap n
  | .core .pairs => checkPairList .pairs n
  | _ => do checkPairs n.start (← n.pairs)

/-- Checks collections of one level and then those in them, down to a depth of `fuel`. -/
def checkLevels : (fuel : Nat) → List Node → Except Failure Unit
  | 0, _ => return ()
  | fuel + 1, level =>
    if level.isEmpty then return ()
    else do checkLevels fuel (← level.mapM checkContent).flatten

def items : Node → List Node
  | .sequence _ _ items => items
  | _ => []

def value : (fuel : Nat) → Node → Value
  | 0, _ => .other
  | fuel + 1, n =>
    match n.tag with
    | .core .null => .null
    | .core .str =>
      match n.scalarText with
      | .ok t => .text t
      | .error _ => .other
    | .core .seq => .list (n.items.map (value fuel))
    | .core .omap => .list (n.items.map fun _ => .other)
    | .core .pairs => .list (n.items.map fun _ => .other)
    | .core .map =>
      match n.pairs with
      | .ok pairs => .mapping (pairs.map fun (k, v) => (value fuel k, value fuel v))
      | .error _ => .mapping []
    | _ => .other

end Node

/-- The value of a document that is no collection is checked by itself, that of another one level
by level. A text without a document has the value of nothing. -/
def Document.value (d : Document) : Except Failure Value :=
  match d.root with
  | none => return .null
  | some n => do
    Node.checkLevels d.bound (← n.check)
    return n.value d.bound

def Value.ofText (t : Text) : Except Failure Value := do (← Document.ofText t).value

end LookupGen.Yaml
