import LookupGen.Run
import LookupGen.Unicode.Classes

/-!
# Command lines

A command line names a command; options may stand before the command and after it. An option is
written with a letter or with a word. Options with letters can share one dash, and a word can be
cut short as long as it is the front of no other. After two dashes alone nothing is an option.
-/

namespace LookupGen

inductive Command where
  | generate (request : Request)
  | list (path : Text)

structure CommandLine where
  verbose : Bool
  logFile : Option Path
  command : Command

inductive Switch where
  | help
  | verbose
  | logFile
  | output
  | dryRun
  deriving DecidableEq, Repr

namespace Switch

def word : Switch → Text
  | help => "--help"
  | verbose => "--verbose"
  | logFile => "--log-file"
  | output => "--output"
  | dryRun => "--dry-run"

def letter? : Switch → Option CodePoint
  | help => some 'h'
  | verbose => some 'v'
  | output => some 'o'
  | logFile => none
  | dryRun => none

def takesValue : Switch → Bool
  | logFile => true
  | output => true
  | help => false
  | verbose => false
  | dryRun => false

def common : List Switch := [help, verbose, logFile]

def ofGenerate : List Switch := common ++ [output, dryRun]

def ofLetter? (known : List Switch) (c : CodePoint) : Option Switch :=
  known.find? fun s => decide (s.letter? = some c)

def startingWith (known : List Switch) (front : Text) : List Switch :=
  known.filter fun s => Text.startsWith s.word front

end Switch

namespace CommandLine

inductive Refusal where
  | help
  | misuse
  deriving DecidableEq, Repr

/-- An option that is set; one without value has the empty one. -/
structure Setting where
  switch : Switch
  value : Text
  deriving DecidableEq, Repr

inductive Argument where
  | operand
  | divider
  | word (s : Switch) (value : Option Text)
  /-- An option by its letter, and what stands after the letter. -/
  | letters (s : Switch) (rest : Text)
  | ambiguous
  | unknown
  deriving DecidableEq, Repr

namespace Argument

def isDigits (t : Text) : Bool := t.all fun c => (Unicode.decimalDigit? c).isSome

/-- A negative number, with or without a fraction; a line end may follow. -/
def isNegativeNumber : Text → Bool
  | [] => false
  | dash :: rest =>
    let t := if rest.getLast? = some (CodePoint.ofChar '\n') then rest.dropLast else rest
    decide (dash = '-') &&
      match Text.splitFirst '.' t with
      | none => !t.isEmpty && isDigits t
      | some (whole, fraction) => isDigits whole && !fraction.isEmpty && isDigits fraction

/-- What an argument is that starts with a dash but with no letter or word of an option. -/
def ofOther (t : Text) : Argument :=
  if isNegativeNumber t || t.contains (CodePoint.ofChar ' ') then operand else unknown

def ofWord (known : List Switch) (t : Text) : Argument :=
  let (front, value) := match Text.splitFirst '=' t with
    | some (front, value) => (front, some value)
    | none => (t, none)
  match Switch.startingWith known front with
  | [] => ofOther t
  | [s] => word s value
  | _ => ambiguous

def ofText (known : List Switch) (t : Text) : Argument :=
  match t with
  | [] => operand
  | [_] => operand
  | first :: second :: rest =>
    if first ≠ '-' then operand
    else if t = "--" then divider
    else if second = '-' then ofWord known t
    else
      match Switch.ofLetter? known second with
      | some s => letters s rest
      | none => ofOther t

def ofTexts (known : List Switch) : List Text → List (Text × Argument)
  | [] => []
  | t :: rest =>
    match ofText known t with
    | divider => (t, divider) :: rest.map fun u => (u, operand)
    | a => (t, a) :: ofTexts known rest

end Argument

structure Taken where
  settings : List Setting
  /-- It holds a letter that is that of no option. -/
  surplus : Bool
  /-- Its value is the next argument. -/
  takesNext : Bool

/-- An option without joined value, given the next argument if that is an operand. -/
def takeBare (s : Switch) (next : Option Text) : Except Refusal Taken :=
  if s.takesValue then
    match next with
    | some value => .ok ⟨[⟨s, value⟩], false, true⟩
    | none => .error .misuse
  else .ok ⟨[⟨s, []⟩], false, false⟩

/-- Options that share a dash: one by its letter, and what stands after the letter. -/
def takeLetters (known : List Switch) (s : Switch) (next : Option Text) :
    Text → Except Refusal Taken
  | [] => takeBare s next
  | c :: rest =>
    if s.takesValue then .ok ⟨[⟨s, if c = '=' then rest else c :: rest⟩], false, false⟩
    else if c = '=' ∨ c = '-' then .error .misuse
    else
      match Switch.ofLetter? known c with
      | none => .ok ⟨[⟨s, []⟩], true, false⟩
      | some other => do
        let taken ← takeLetters known other next rest
        return { taken with settings := ⟨s, []⟩ :: taken.settings }

def take (known : List Switch) (a : Argument) (next : Option Text) : Except Refusal Taken := do
  let taken ← match a with
    | .word s none => takeBare s next
    | .word s (some value) =>
      if s.takesValue then .ok ⟨[⟨s, value⟩], false, false⟩ else .error .misuse
    | .letters s rest => takeLetters known s next rest
    | _ => .ok ⟨[], true, false⟩
  if taken.settings.any fun s => decide (s.switch = .help) then throw .help
  return taken

/-- A command line as far as it has been read: its settings, whether there is something that does
not belong to it, and what is still to be read or has been found. -/
structure Given (α : Type) where
  settings : List Setting
  surplus : Bool
  found : α

def Taken.before {α : Type} (taken : Taken) (g : Given α) : Given α :=
  ⟨taken.settings ++ g.settings, taken.surplus || g.surplus, g.found⟩

def readFront (known : List Switch) :
    List (Text × Argument) → Except Refusal (Given (Text × List Text))
  | [] => .error .misuse
  | (name, .operand) :: rest => .ok ⟨[], false, name, rest.map (·.1)⟩
  | (_, .divider) :: _ => .error .misuse
  | (_, a) :: (value, .operand) :: rest => do
    let taken ← take known a (some value)
    let more ← if taken.takesNext then readFront known rest
      else readFront known ((value, .operand) :: rest)
    return taken.before more
  | (_, a) :: rest => do
    let taken ← take known a none
    let more ← readFront known rest
    return taken.before more

/-- The options after a command and its one operand. A divider must stand next to the operand; it
ends the options. -/
def readBack (known : List Switch) (operand : Option Text) :
    List (Text × Argument) → Except Refusal (Given (Option Text))
  | [] => .ok ⟨[], false, operand⟩
  | (t, .operand) :: rest =>
    match operand, rest with
    | none, (_, .divider) :: after => .ok ⟨[], !after.isEmpty, some t⟩
    | none, rest => readBack known (some t) rest
    | some first, rest => do
      let more ← readBack known (some first) rest
      return { more with surplus := true }
  | (_, .divider) :: rest =>
    match operand, rest with
    | none, [] => .ok ⟨[], false, none⟩
    | none, [(t, _)] => .ok ⟨[], false, some t⟩
    | operand, _ => .ok ⟨[], true, operand⟩
  | (_, a) :: (value, .operand) :: rest => do
    let taken ← take known a (some value)
    let more ← if taken.takesNext then readBack known operand rest
      else readBack known operand ((value, .operand) :: rest)
    return taken.before more
  | (_, a) :: rest => do
    let taken ← take known a none
    let more ← readBack known operand rest
    return taken.before more

def classify (known : List Switch) (ts : List Text) : Except Refusal (List (Text × Argument)) :=
  let arguments := Argument.ofTexts known ts
  if arguments.any fun a => decide (a.2 = .ambiguous) then .error .misuse else .ok arguments

def isSet (s : Switch) (settings : List Setting) : Bool :=
  settings.any fun x => decide (x.switch = s)

def pathFor? (s : Switch) (settings : List Setting) : Option Path :=
  ((settings.filter fun x => decide (x.switch = s)).getLast?).map fun x => Path.ofText x.value

def defaultPath : Text := "."

def commandOf (isGenerate : Bool) (g : Given (Option Text)) : Command :=
  let path := g.found.getD defaultPath
  if isGenerate then .generate ⟨path, pathFor? .output g.settings, isSet .dryRun g.settings⟩
  else .list path

/-- Reads a command line. Where it asks for help and holds a fault too, what comes first counts; but
an ambiguous word counts before all else, and an argument too many after all else. -/
def read (ts : List Text) : Except Refusal CommandLine := do
  let front ← readFront Switch.common (← classify Switch.common ts)
  let (name, rest) := front.found
  let isGenerate := decide (name = "generate")
  if !isGenerate && decide (name ≠ "list") then throw .misuse
  let known := if isGenerate then Switch.ofGenerate else Switch.common
  let back ← readBack known none (← classify known rest)
  if front.surplus || back.surplus then throw .misuse
  let settings := front.settings ++ back.settings
  return ⟨isSet .verbose settings, pathFor? .logFile settings, commandOf isGenerate back⟩

end CommandLine

end LookupGen
