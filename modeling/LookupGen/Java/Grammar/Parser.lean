import LookupGen.Java.Token

/-!
# Parsers over tokens

A parser takes tokens from the front or refuses. Either way it tells how far it looked: the
greatest index of a token that was refused on the way. The first token that no way through the
grammar can take is the one reported as wrong.
-/

namespace LookupGen.Java

/-- The outcome of a parser, with the greatest index of a refused token. -/
inductive Outcome (α : Type) where
  | taken (value : α) (rest : List Token) (reach : Nat)
  | refused (reach : Nat)

def Parser (α : Type) := List Token → Outcome α

namespace Parser

variable {α β : Type}

def succeed (a : α) : Parser α := fun ts => .taken a ts 0

def andThen (p : Parser α) (q : α → Parser β) : Parser β := fun ts =>
  match p ts with
  | .refused reach => .refused reach
  | .taken a rest reach =>
    match q a rest with
    | .refused more => .refused (max reach more)
    | .taken b rest more => .taken b rest (max reach more)

instance : Monad Parser where
  pure := succeed
  bind := andThen

def refuse : Parser α
  | [] => .refused 0
  | t :: _ => .refused t.index

def orElse (p : Parser α) (q : Parser α) : Parser α := fun ts =>
  match p ts with
  | .taken a rest reach => .taken a rest reach
  | .refused reach =>
    match q ts with
    | .taken a rest more => .taken a rest (max reach more)
    | .refused more => .refused (max reach more)

def firstOf : List (Parser α) → Parser α
  | [] => refuse
  | [p] => p
  | p :: rest => orElse p (firstOf rest)

def optional (p : Parser α) : Parser (Option α) :=
  orElse (andThen p fun a => succeed (some a)) (succeed none)

/-- The parser as often as it takes something, at most once for each token of `bound`. -/
def manyAlong (p : Parser α) : (bound : List Token) → Parser (List α)
  | [] => succeed []
  | _ :: bound =>
    orElse (andThen p fun a => andThen (manyAlong p bound) fun more => succeed (a :: more))
      (succeed [])

def many (p : Parser α) : Parser (List α) := fun ts => manyAlong p ts ts

def iterateAlong (step : α → Parser α) : (bound : List Token) → α → Parser α
  | [], a => succeed a
  | _ :: bound, a =>
    fun ts =>
      match step a ts with
      | .refused reach => .taken a ts reach
      | .taken b rest reach =>
        match iterateAlong step bound b rest with
        | .refused more => .refused (max reach more)
        | .taken c rest more => .taken c rest (max reach more)

def iterate (step : α → Parser α) (a : α) : Parser α := fun ts => iterateAlong step ts a ts

def separated (p : Parser α) (separator : Parser β) : Parser (List α) := do
  let head ← p
  let more ← many (do let _ ← separator; p)
  pure (head :: more)

def peek : Parser Token
  | [] => .refused 0
  | t :: ts => .taken t (t :: ts) 0

def peekTwo : Parser (Token × Option Token)
  | [] => .refused 0
  | t :: ts => .taken (t, ts.head?) (t :: ts) 0

def lookahead (p : Parser α) : Parser α := fun ts =>
  match p ts with
  | .taken a _ _ => .taken a ts 0
  | .refused _ => refuse ts

def tokenWhere (p : Token → Bool) : Parser Token
  | [] => .refused 0
  | t :: ts => if p t then .taken t ts 0 else .refused t.index

def sign (s : String) : Parser Token := tokenWhere fun t => t.kind = .sign s

def keyword (s : String) : Parser Token := tokenWhere fun t => t.kind = .word s

def withSpan (p : Parser α) : Parser (α × List Glyph) := fun ts =>
  match p ts with
  | .refused reach => .refused reach
  | .taken a rest reach => .taken (a, Token.span (ts.take (ts.length - rest.length))) rest reach

/-- Any word. Where the grammar asks for a name, every word is one. -/
def identifier : Parser Name
  | [] => .refused 0
  | t :: ts =>
    match t.kind with
    | .word s => .taken (Text.ofString s) ts 0
    | _ => .refused t.index

def qualifiedName : Parser Written := do
  let (_, span) ← withSpan (separated identifier (sign "."))
  pure (Glyph.text span)

def isSign (s : String) (t : Token) : Bool := t.kind = .sign s

def isWord (s : String) (t : Token) : Bool := t.kind = .word s

def isAnyWord (t : Token) : Bool := match t.kind with
  | .word _ => true
  | _ => false

def ignore (p : Parser α) : Parser Unit := andThen p fun _ => succeed ()

def enclosed (opening : String) (p : Parser α) (closing : String) : Parser α := do
  let _ ← sign opening
  let a ← p
  let _ ← sign closing
  pure a

def commaSeparated (p : Parser α) : Parser (List α) := do
  let items ← optional (separated p (sign ","))
  pure (items.getD [])

end Parser

end LookupGen.Java
