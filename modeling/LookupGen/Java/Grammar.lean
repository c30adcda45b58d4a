import LookupGen.Java.Grammar.Declarations

/-!
# Source files

The rules of the grammar tied together, and the reading of a whole file. The depth to which rules
may be nested grows with the number of tokens, since every few of them a token is taken. A file
that the grammar does not take is reported with the line of the first token that is wrong: the
end of the token before it if something is missing there, and its own line otherwise.
-/

namespace LookupGen.Java

def rules : Nat → Rules
  | 0 => Rules.refusing
  | depth + 1 => {
    type := fun ts => typeRule (rules depth) ts
    typeArguments := fun ts => typeArgumentsRule (rules depth) ts
    annotationUse := fun ts => annotationRule (rules depth) ts
    elementValue := fun ts => elementValueRule (rules depth) ts
    expression := fun ts => expressionRule (rules depth) ts
    unary := fun ts => unaryRule (rules depth) (conditional (rules depth)) ts
    arrayInitializer := fun ts => arrayInitializerRule (rules depth) ts
    pattern := fun ts => patternRule (rules depth) ts
    block := fun ts => blockRule (rules depth) ts
    statement := fun ts => statementRule (rules depth) ts
    typeDeclaration := fun m line ts => typeDeclarationRule (rules depth) m line ts
    members := fun kind ts => membersRule (rules depth) kind ts }

/-- The items of a file, or the place of the token that is wrong in the list of tokens. -/
def parseItems (tokens : List Token) : Except Nat (List Item) :=
  match fileRule (rules (8 * tokens.length + 16)) tokens with
  | .taken items _ _ => .ok items
  | .refused reach => .error reach

/-- What may be missing in a file: a closing sign, or a name. -/
def fillers : List (List TokenKind) := [
  [.sign ";"], [.sign ")"], [.sign "]"], [.sign "\x7d"], [.sign ">"], [.word "x"],
  [.sign ")", .sign ";"], [.word "x", .sign ";"], [.sign ";", .sign "\x7d"],
  List.replicate 2 (.sign "\x7d"), List.replicate 3 (.sign "\x7d"),
  List.replicate 4 (.sign "\x7d"), List.replicate 5 (.sign "\x7d")]

/-- Tokens with others put in at a place, which all get the index of the place. -/
def fill (tokens : List Token) (place : Nat) (kinds : List TokenKind) : List Token :=
  tokens.take place ++ kinds.map (fun k => ⟨k, place, [], [], 0⟩) ++ tokens.drop place

/-- Whether a file can be taken once something is put in at a place. -/
def isMissingAt (tokens : List Token) (place : Nat) : Bool :=
  fillers.any fun kinds =>
    match parseItems (fill tokens place kinds) with
    | .ok _ => true
    | .error _ => false

def errorLine (tokens : List Token) (place : Nat) : Nat :=
  let before := (tokens.take place).getLast?.map Token.endLine
  match tokens[place]? with
  | none => before.getD 1
  | some t =>
    match before with
    | none => t.line
    | some line => if isMissingAt tokens place ∨ t.kind = .finish then line else t.line

def parseFile (content : Bytes) : Except Nat (List Item) :=
  let tokens := Token.read (Glyph.read content)
  match parseItems tokens with
  | .ok items => .ok items
  | .error place => .error (errorLine tokens place)

end LookupGen.Java
