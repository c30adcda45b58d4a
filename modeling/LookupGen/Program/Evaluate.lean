import LookupGen.Constant
import LookupGen.Literal
import LookupGen.Program.Resolve

/-!
# Constants of fields

A field is constant if it is final, has an initializer, is of type `String` or primitive, and its
initializer is made of literals and other constant fields. Each field is evaluated once and the
result is remembered. A field that is met again while it is evaluated has no constant.
-/

namespace LookupGen

open Java (Expr UnaryOp)

inductive EvalError where
  | undecodable (e : Utf8.DecodeError)
  /-- A character literal that is used as a number is not one character. -/
  | notOneCharacter (size : Nat)
  deriving DecidableEq, Repr

/-- What an evaluation remembers: the constants found so far, and the fields under evaluation. -/
structure EvalState where
  memo : List ((Nat × Name) × Option Constant)
  active : List (Nat × Name)

def EvalState.empty : EvalState := ⟨[], []⟩

/-- An evaluation, which remembers constants also where it breaks off. -/
abbrev EvalM := ExceptT EvalError (StateM EvalState)

section

variable {m : Type → Type} [Monad m] [MonadExceptOf EvalError m]

def written (w : Java.Written) : m Text :=
  match w with
  | .ok t => pure t
  | .error e => throw (.undecodable e)

def operated (result : Except NotOneCharacter (Option Constant)) : m (Option Constant) :=
  match result with
  | .ok c => pure c
  | .error e => throw (.notOneCharacter e.size)

end

def unquote (n : Nat) (t : Text) : Text := (t.drop n).take (t.length - 2 * n)

def stringConstant (literal : Text) : Constant :=
  if Text.startsWith literal "\"\"\"" then .string (Literal.decodeBlock (unquote 3 literal))
  else .string (Literal.decode (unquote 1 literal))

def characterConstant (literal : Text) : Constant := .character (Literal.decode (unquote 1 literal))

def integerConstant? (literal : Text) : Option Constant :=
  (Literal.integer? literal).map fun (isLong, n) => Constant.ofNumber isLong n

def applyUnary (op : UnaryOp) (c : Constant) : Except NotOneCharacter (Option Constant) :=
  match op with
  | .negation => .ok c.negate?
  | .plus => c.mapNumber id
  | .minus => c.mapNumber fun n => -n
  | .complement => c.mapNumber fun n => -n - 1

def primitiveTypes : List Name :=
  ["boolean", "byte", "char", "short", "int", "long", "float", "double"]

namespace Program

variable (p : Program)

section

variable {m : Type → Type} [Monad m] [MonadExceptOf EvalError m]

/-- The constant of an expression, given a way to ask for the constants of fields. -/
def evaluate (demand : FieldRef → m (Option Constant)) (site : Site) :
    Expr → m (Option Constant)
  | .string literal => do
    let t ← written literal
    pure (some (stringConstant t))
  | .character literal => do
    let t ← written literal
    pure (some (characterConstant t))
  | .integer literal => do
    let t ← written literal
    pure (integerConstant? t)
  | .boolean b => pure (some (.boolean b))
  | .paren inner => evaluate demand site inner
  | .plus left right => do
    match ← evaluate demand site left with
    | none => pure none
    | some a =>
      match ← evaluate demand site right with
      | none => pure none
      | some b => operated (a.plus b)
  | .unary op operand => do
    match ← evaluate demand site operand with
    | none => pure none
    | some a => operated (applyUnary op a)
  | .name n =>
    match p.field? site n with
    | some f => demand f
    | none => pure none
  | .field owner n => do
    let owner ← written owner
    match p.fieldOf? site owner n with
    | some f => demand f
    | none => pure none
  | .other => pure none

/-- Whether a constant may be the value of a field of a type: strings belong to `String` and to
nothing else. -/
def fits (type : Name) (c : Constant) : Bool := decide (type = stringType) == c.isString

def mayBeConstant (type : Name) : Bool := decide (type = stringType) || primitiveTypes.contains type

def declaredConstant (demand : FieldRef → m (Option Constant)) (f : FieldRef) :
    m (Option Constant) :=
  match f.field.initializer with
  | none => pure none
  | some e =>
    if f.field.isFinal ∧ f.field.dimensions = 0 then do
      let type ← written (p.fieldTypeName f)
      if mayBeConstant type then
        let c ← p.evaluate demand f.site e
        pure (c.filter (fits type))
      else pure none
    else pure none

end

/-- An evaluation during which a field is under evaluation; afterwards it no longer is, whatever
came of it. -/
def entering {α : Type} (key : Nat × Name) (x : EvalM α) : EvalM α := fun s =>
  let (result, after) := x { s with active := key :: s.active }
  (result, { after with active := after.active.erase key })

/-- The constant of a field. There are at most `budget` more fields to enter. -/
def constantWithin : (budget : Nat) → FieldRef → EvalM (Option Constant)
  | 0, _ => pure none
  | budget + 1, f => do
    let s ← get
    match s.memo.lookup f.key with
    | some known => pure known
    | none =>
      if s.active.contains f.key then pure none
      else
        let c ← entering f.key (p.declaredConstant (constantWithin budget) f)
        modify fun s => { s with memo := (f.key, c) :: s.memo }
        pure c

def fieldCount : Nat := (p.types.flatMap fun t => t.scope.fields).length

def constant (f : FieldRef) : EvalM (Option Constant) := p.constantWithin (p.fieldCount + 1) f

def constantAt (site : Site) (e : Expr) : EvalM (Option Constant) := p.evaluate p.constant site e

end Program

end LookupGen
