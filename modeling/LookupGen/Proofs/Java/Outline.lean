import LookupGen.Proofs.Java.Balance
import LookupGen.Proofs.Java.Spelling.Files

/-!
# The outline of a source file

Which tokens of a file declare what, said without the grammar: a body is a sequence of pieces, and a
piece ends with its first semicolon or its first pair of braces outside all other brackets, unless
an equals sign comes before. A piece with the word for a type after its modifiers is a type with the
pieces between its braces; any other piece declares fields, a method or nothing, whatever stands in
its brackets.

This module does NOT say what a statement at the top of a file looks like, only that it declares
nothing.
-/

namespace LookupGen.Java

open Java.Parser

def Token.Names (t : Token) (n : Name) : Prop := ∃ s, t.kind = .word s ∧ n = Text.ofString s

def StartsOn (line : Nat) (ts : List Token) : Prop := ∃ t rest, ts = t :: rest ∧ t.line = line

def MayBracket (opening closing : String) (ts : List Token) : Prop :=
  ts = [] ∨ Bracketed opening closing ts

inductive AnnotationTokens : List Token → Prop where
  | mk {t : Token} {name arguments : List Token} (ht : t.kind = .sign "@") (hname : Dotted name)
      (harguments : MayBracket "(" ")" arguments) : AnnotationTokens (t :: (name ++ arguments))

theorem AnnotationTokens.ne_nil {ts : List Token} (h : AnnotationTokens ts) : ts ≠ [] := by
  cases h with
  | mk => exact List.cons_ne_nil _ _

inductive ModifierTokens : Nat → List Token → Prop where
  | nil : ModifierTokens 0 []
  | word {n : Nat} {t : Token} {s : String} {ts : List Token} (ht : t.kind = .word s)
      (hs : s ∈ modifierWords ∨ s = "sealed") (hrest : ModifierTokens n ts) :
      ModifierTokens n (t :: ts)
  | nonSealed {n : Nat} {t u v : Token} {ts : List Token} (ht : t.kind = .word "non")
      (hu : u.kind = .sign "-") (hv : v.kind = .word "sealed") (hrest : ModifierTokens n ts) :
      ModifierTokens n (t :: u :: v :: ts)
  | marked {n : Nat} {us ts : List Token} (h : AnnotationTokens us) (hrest : ModifierTokens n ts) :
      ModifierTokens (n + 1) (us ++ ts)

inductive Listed {α : Type} (P : List Token → α → Prop) : List Token → List α → Prop where
  | last {ts : List Token} {a : α} (h : P ts a) : Listed P ts [a]
  | more {ts rest : List Token} {t : Token} {a : α} {as : List α} (h : P ts a)
      (ht : t.kind = .sign ",") (hrest : Listed P rest as) : Listed P (ts ++ t :: rest) (a :: as)

inductive VariableTokens : List Token → Declarator → Prop where
  | mk {d : Declarator} {t : Token} {brackets value : List Token} (ht : t.Names d.name)
      (hline : t.line = d.line) (hbrackets : Balanced .header brackets)
      (hvalue : value = [] ∨
        ∃ u rest, value = u :: rest ∧ u.kind = .sign "=" ∧ Balanced .expression rest) :
      VariableTokens (t :: (brackets ++ value)) d

inductive ConstantTokens : List Token → Member → Prop where
  | mk {m : Modifiers} {name : Name} {line : Nat} {t : Token}
      {modifiers arguments body : List Token}
      (hmodifiers : ModifierTokens m.annotations.length modifiers) (ht : t.Names name)
      (harguments : MayBracket "(" ")" arguments) (hbody : MayBracket "\x7b" "\x7d" body)
      (hline : StartsOn line (modifiers ++ t :: (arguments ++ body))) :
      ConstantTokens (modifiers ++ t :: (arguments ++ body)) (.constant m name line)

/-- How a method ends: with its body, or with a semicolon, before which an element of an annotation
type may have its default. -/
inductive EndTokens (kind : BodyKind) : List Token → Prop where
  | body {ts : List Token} (hkind : kind ≠ .annotationType) (h : Bracketed "\x7b" "\x7d" ts) :
      EndTokens kind ts
  | semicolon {t : Token} (ht : t.kind = .sign ";") : EndTokens kind [t]
  | default {t u : Token} {ts : List Token} (hkind : kind = .annotationType)
      (ht : t.kind = .word "default") (h : Balanced .expression ts) (hu : u.kind = .sign ";") :
      EndTokens kind (t :: (ts ++ [u]))

def isModifier (t : Token) (next : Option Token) : Bool :=
  match t.kind with
  | .word s => modifierWords.contains s ||
    s == "sealed" && next.any fun u => isAnyWord u || isSign "@" u
  | _ => false

/-- What stands after all modifiers of a member that is no type: a name, or an angle before one. -/
def StartsMember (ts : List Token) : Prop :=
  ∃ t rest, ts = t :: rest ∧ (isAnyWord t || isSign "<" t) = true ∧
    isModifier t rest.head? = false ∧ startsType t rest.head? = false

/-- A member of a type that is no type: a method, or the fields of one declaration. -/
inductive MemberTokens (kind : BodyKind) : List Token → Member → Prop where
  | method {sort : Kind} {m : Modifiers} {name : Name} {line : Nat} {t : Token}
      {modifiers front rest last : List Token} (hsort : sort = .method ∨ sort = .constructor)
      (hmodifiers : ModifierTokens m.annotations.length modifiers)
      (hstarts : StartsMember (front ++ t :: (rest ++ last))) (hfront : Balanced .header front)
      (ht : t.Names name) (hrest : Balanced .header rest) (hlast : EndTokens kind last)
      (hline : StartsOn line (modifiers ++ (front ++ t :: (rest ++ last)))) :
      MemberTokens kind (modifiers ++ (front ++ t :: (rest ++ last))) (.method sort m name line)
  | fields {m : Modifiers} {type : TypeUse} {ds : List Declarator} {t : Token}
      {modifiers front declared : List Token}
      (hmodifiers : ModifierTokens m.annotations.length modifiers)
      (hstarts : StartsMember (front ++ (declared ++ [t]))) (hfront : Balanced .header front)
      (hvariables : Listed VariableTokens declared ds) (ht : t.kind = .sign ";") :
      MemberTokens kind (modifiers ++ (front ++ (declared ++ [t]))) (.fields m type ds)

def typeKeyword : TypeKind → TokenKind
  | .ordinary => .word "class"
  | .interface => .word "interface"
  | .enumeration => .word "enum"
  | .record => .word "record"
  | .annotationType => .sign "@interface"

/-- What the body of a type of a kind may hold. -/
def bodyKind : TypeKind → BodyKind
  | .interface => .interface
  | .annotationType => .annotationType
  | _ => .general

/-- The start of a type declaration up to its first brace: the modifiers, the word for its kind, its
name, and what stands between the name and the body. -/
inductive HeaderTokens (kind : TypeKind) (m : Modifiers) (name : Name) (line : Nat) :
    List Token → Prop where
  | mk {modifiers rest : List Token} {t u : Token}
      (hmodifiers : ModifierTokens m.annotations.length modifiers) (ht : t.kind = typeKeyword kind)
      (hu : u.Names name) (hrest : Balanced .header rest)
      (hline : StartsOn line (modifiers ++ t :: u :: rest)) :
      HeaderTokens kind m name line (modifiers ++ t :: u :: rest)

mutual

/-- A type declaration. An enumeration has its constants first, and its other members after a
semicolon. -/
inductive TypeTokens : List Token → TypeDeclaration → Prop where
  | body {kind : TypeKind} {m : Modifiers} {name : Name} {line : Nat} {members : List Member}
      {header inner : List Token} {t u : Token} (hkind : kind ≠ .enumeration)
      (hheader : HeaderTokens kind m name line header) (ht : t.kind = .sign "\x7b")
      (hinner : BodyTokens (bodyKind kind) inner members) (hu : u.kind = .sign "\x7d") :
      TypeTokens (header ++ t :: (inner ++ [u])) (.mk kind m name line members)
  | enumeration {m : Modifiers} {name : Name} {line : Nat} {constants members : List Member}
      {header inner comma rest : List Token} {t u : Token}
      (hheader : HeaderTokens .enumeration m name line header) (ht : t.kind = .sign "\x7b")
      (hconstants : inner = [] ∧ constants = [] ∨ Listed ConstantTokens inner constants)
      (hcomma : comma = [] ∨ ∃ v, comma = [v] ∧ v.kind = .sign ",")
      (hrest : RestTokens rest members) (hu : u.kind = .sign "\x7d") :
      TypeTokens (header ++ t :: (inner ++ (comma ++ (rest ++ [u]))))
        (.mk .enumeration m name line (constants ++ members))

/-- What stands between the constants of an enumeration and the closing brace. -/
inductive RestTokens : List Token → List Member → Prop where
  | none : RestTokens [] []
  | some {t : Token} {ts : List Token} {members : List Member} (ht : t.kind = .sign ";")
      (h : BodyTokens .general ts members) : RestTokens (t :: ts) members

/-- The members between two braces. A semicolon and an initializer declare nothing. -/
inductive BodyTokens : BodyKind → List Token → List Member → Prop where
  | nil (kind : BodyKind) : BodyTokens kind [] []
  | semicolon {kind : BodyKind} {t : Token} {ts : List Token} {members : List Member}
      (ht : t.kind = .sign ";") (hrest : BodyTokens kind ts members) :
      BodyTokens kind (t :: ts) members
  | initializer {front block ts : List Token} {members : List Member}
      (hfront : front = [] ∨ ∃ t, front = [t] ∧ t.kind = .word "static")
      (hblock : Bracketed "\x7b" "\x7d" block) (hrest : BodyTokens .general ts members) :
      BodyTokens .general (front ++ (block ++ ts)) members
  | type {kind : BodyKind} {us ts : List Token} {d : TypeDeclaration} {members : List Member}
      (h : TypeTokens us d) (hrest : BodyTokens kind ts members) :
      BodyTokens kind (us ++ ts) (.type d :: members)
  | member {kind : BodyKind} {us ts : List Token} {m : Member} {members : List Member}
      (h : MemberTokens kind us m) (hrest : BodyTokens kind ts members) :
      BodyTokens kind (us ++ ts) (m :: members)

end

/-- What tokens can have as a member: a type with tokens of its own among them, or another member,
which is no type if it is a method. -/
def Member.Among (ts : List Token) : Member → Prop
  | .type d => ∃ us, us <:+: ts ∧ TypeTokens us d
  | .method sort _ _ _ => sort = .method ∨ sort = .constructor
  | _ => True

theorem Member.Among.mono {us ts : List Token} (h : us <:+: ts) {m : Member} (hm : m.Among us) :
    m.Among ts := by
  cases m with
  | type d =>
    obtain ⟨vs, hvs, hd⟩ := hm
    exact ⟨vs, hvs.trans h, hd⟩
  | method sort m name line => exact hm
  | fields m type ds => trivial
  | constant m name line => trivial

theorem MemberTokens.among {kind : BodyKind} {us : List Token} {m : Member}
    (h : MemberTokens kind us m) (ts : List Token) : m.Among ts := by
  cases h with
  | method hsort => exact hsort
  | fields => trivial

/-- By induction on the body, the types in it aside. -/
theorem BodyTokens.among {kind : BodyKind} {ts : List Token} {members : List Member}
    (h : BodyTokens kind ts members) : ∀ m ∈ members, m.Among ts := by
  refine @BodyTokens.rec (fun _ _ _ => True) (fun _ _ _ => True)
    (fun _ ts members _ => ∀ m ∈ members, m.Among ts) ?_ ?_ ?_ ?_ ?_ ?_ ?_ ?_ ?_ _ _ _ h
  · exact fun _ _ _ _ _ _ => trivial
  · exact fun _ _ _ _ _ _ _ => trivial
  · trivial
  · exact fun _ _ _ => trivial
  · exact fun _ m hm => absurd hm List.not_mem_nil
  · intro kind t ts members _ _ ih m hm
    exact (ih m hm).mono (List.suffix_cons t ts).isInfix
  · intro front block ts members _ _ _ ih m hm
    exact (ih m hm).mono ((List.suffix_append block ts).trans (List.suffix_append front _)).isInfix
  · intro kind us ts d members hd _ _ ih
    refine List.forall_mem_cons.mpr ⟨⟨us, (List.prefix_append us ts).isInfix, hd⟩, fun m hm => ?_⟩
    exact (ih m hm).mono (List.suffix_append us ts).isInfix
  · intro kind us ts first members hfirst _ ih
    refine List.forall_mem_cons.mpr ⟨hfirst.among _, fun m hm => ?_⟩
    exact (ih m hm).mono (List.suffix_append us ts).isInfix

theorem ConstantTokens.among {us : List Token} {m : Member} (h : ConstantTokens us m)
    (ts : List Token) : m.Among ts := by
  cases h with
  | mk => trivial

theorem Listed.exists_of_mem {α : Type} {P : List Token → α → Prop} {ts : List Token} {as : List α}
    (h : Listed P ts as) {a : α} (ha : a ∈ as) : ∃ us, P us a := by
  induction h with
  | @last ts b hb =>
    obtain rfl := List.mem_singleton.mp ha
    exact ⟨ts, hb⟩
  | @more ts _ _ b _ hb _ _ ih =>
    rcases List.mem_cons.mp ha with rfl | ha
    · exact ⟨ts, hb⟩
    · exact ih ha

theorem RestTokens.among {ts : List Token} {members : List Member} (h : RestTokens ts members) :
    ∀ m ∈ members, m.Among ts := by
  cases h with
  | none => exact fun m hm => absurd hm List.not_mem_nil
  | @some t ts _ _ hbody =>
    exact fun m hm => (hbody.among m hm).mono (List.suffix_cons t ts).isInfix

theorem TypeTokens.among {ts : List Token} {kind : TypeKind} {m : Modifiers} {name : Name}
    {line : Nat} {members : List Member} (h : TypeTokens ts (.mk kind m name line members)) :
    ∀ member ∈ members, member.Among ts := by
  cases h with
  | @body _ _ _ _ _ header inner t u _ _ _ hinner _ =>
    have hinfix : inner <:+: header ++ t :: (inner ++ [u]) := ⟨header ++ [t], [u], by simp⟩
    exact fun member hmember => (hinner.among member hmember).mono hinfix
  | @enumeration _ _ _ constants members header inner comma rest t u _ _ hconstants _ hrest _ =>
    have hinfix : rest <:+: header ++ t :: (inner ++ (comma ++ (rest ++ [u]))) :=
      ⟨header ++ t :: (inner ++ comma), [u], by simp⟩
    intro member hmember
    rcases List.mem_append.mp hmember with hmember | hmember
    · rcases hconstants with ⟨-, rfl⟩ | hlisted
      · cases hmember
      · obtain ⟨us, hconstant⟩ := hlisted.exists_of_mem hmember
        exact hconstant.among _
    · exact (hrest.among member hmember).mono hinfix

inductive ItemTokens : List Token → Item → Prop where
  | package {modifiers name : List Token} {n : Nat} {t u : Token}
      (hmodifiers : ModifierTokens n modifiers) (ht : t.kind = .word "package")
      (hname : Dotted name) (hu : u.kind = .sign ";") :
      ItemTokens (modifiers ++ t :: (name ++ [u])) (.package (Glyph.text (Token.span name)))
  | «import» {rest : List Token} {form : ImportForm} {name : Written} {t u : Token}
      (ht : t.kind = .word "import") (hrest : Balanced .header rest) (hu : u.kind = .sign ";") :
      ItemTokens (t :: (rest ++ [u])) (.import form name)
  | type {ts : List Token} {d : TypeDeclaration} (h : TypeTokens ts d) : ItemTokens ts (.type d)

/-- A whole file. The grammar tells where a declaration stands at the top of the file, and where a
statement or a method, which declares nothing. -/
inductive FileTokens (depth : Nat) : List Token → List Item → Prop where
  | finish {t : Token} (ht : t.kind = .finish) : FileTokens depth [t] []
  | item {us ts : List Token} {item : Item} {items : List Item} (h : ItemTokens us item)
      (htaken : ∃ o, Takes (topLevel (rules depth)) (us ++ ts) (some o) ts)
      (hrest : FileTokens depth ts items) : FileTokens depth (us ++ ts) (item :: items)
  | other {us ts : List Token} {items : List Item} (hus : us ≠ [])
      (htaken : Takes (topLevel (rules depth)) (us ++ ts) none ts)
      (hrest : FileTokens depth ts items) : FileTokens depth (us ++ ts) items

def Outlines (ts : List Token) (items : List Item) : Prop :=
  FileTokens (8 * ts.length + 16) ts items

theorem FileTokens.types {depth : Nat} {ts : List Token} {items : List Item}
    (h : FileTokens depth ts items) {d : TypeDeclaration} (hd : .type d ∈ items) :
    ∃ us, us <:+: ts ∧ TypeTokens us d := by
  induction h with
  | finish => cases hd
  | @item us ts item items hitem _ _ ih =>
    rcases List.mem_cons.mp hd with rfl | hd
    · cases hitem with
      | type h => exact ⟨us, (List.prefix_append us ts).isInfix, h⟩
    · obtain ⟨vs, hvs, htype⟩ := ih hd
      exact ⟨vs, hvs.trans (List.suffix_append us ts).isInfix, htype⟩
  | @other us ts items _ _ _ ih =>
    obtain ⟨vs, hvs, htype⟩ := ih hd
    exact ⟨vs, hvs.trans (List.suffix_append us ts).isInfix, htype⟩

end LookupGen.Java
