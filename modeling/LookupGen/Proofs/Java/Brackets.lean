import LookupGen.Java.Grammar
import LookupGen.Proofs.Java.Takes

/-!
# Brackets

Every rule of the grammar takes tokens in which each opening bracket has its closing one. What may
stand outside all brackets depends on the rule: no semicolon inside an expression, and in what
stands before the body of a type or a method neither a semicolon nor a brace nor a sign for a value.

This module does NOT say what stands between two brackets, only that brackets match there too.
-/

namespace LookupGen.Java

/-- Where tokens may stand: among statements, inside an expression, before a body, or before the end
of a member with its modifiers. -/
inductive Surface where
  | body
  | expression
  | header
  | front
  deriving DecidableEq, Repr

namespace Surface

/-- The signs that do not occur outside brackets, brackets included. -/
def excluded (f : Surface) : List String :=
  ["(", ")", "[", "]", "\x7b", "\x7d"] ++ match f with
    | body => []
    | expression => [";"]
    | header => [";", "=", "-", "@interface"]
    | front => [";", "="]

def admits (f : Surface) : TokenKind → Bool
  | .sign s => !f.excluded.contains s
  | _ => true

/-- The brackets that may open outside other brackets, each with the one that closes it. -/
def pairs (f : Surface) : List (String × String) :=
  [("(", ")"), ("[", "]")] ++ match f with
    | body | expression => [("\x7b", "\x7d")]
    | header | front => []

/-- Expressions and statements may hold braces. -/
class Loose (f : Surface) : Prop where
  brace_mem : ("\x7b", "\x7d") ∈ f.pairs

instance : Loose body := ⟨by decide⟩

instance : Loose expression := ⟨by decide⟩

theorem round_mem (f : Surface) : ("(", ")") ∈ f.pairs := List.mem_cons_self

theorem square_mem (f : Surface) : ("[", "]") ∈ f.pairs := List.mem_cons_of_mem _ List.mem_cons_self

theorem admits_mono {f g : Surface} (h : g.excluded ⊆ f.excluded) {k : TokenKind}
    (hk : f.admits k = true) : g.admits k = true := by
  cases k with
  | sign s =>
    simp only [admits, Bool.not_eq_true', List.contains_eq_mem, decide_eq_false_iff_not] at hk ⊢
    exact fun hs => hk (h hs)
  | word | integer | floating | character | string | stray | finish => rfl

theorem admits_loose {f : Surface} [hf : Loose f] {k : TokenKind} (h : expression.admits k = true) :
    f.admits k = true := by
  refine admits_mono ?_ h
  cases f with
  | body | expression => decide
  | header | front => exact absurd hf.brace_mem (by decide)

end Surface

inductive Balanced : Surface → List Token → Prop where
  | nil (f : Surface) : Balanced f []
  | single {f : Surface} {t : Token} {ts : List Token} (h : f.admits t.kind = true)
      (hrest : Balanced f ts) : Balanced f (t :: ts)
  | group {f : Surface} {opening closing : String} {t u : Token} {inner ts : List Token}
      (hpair : (opening, closing) ∈ f.pairs) (ht : t.kind = .sign opening)
      (hinner : Balanced .body inner) (hu : u.kind = .sign closing) (hrest : Balanced f ts) :
      Balanced f (t :: (inner ++ u :: ts))

def Bracketed (opening closing : String) (ts : List Token) : Prop :=
  ∃ t inner u, ts = t :: (inner ++ [u]) ∧ t.kind = .sign opening ∧ Balanced .body inner ∧
    u.kind = .sign closing

namespace Balanced

variable {f : Surface} {a b : List Token}

theorem token {t : Token} (h : f.admits t.kind = true) : Balanced f [t] := .single h (.nil f)

theorem append (ha : Balanced f a) (hb : Balanced f b) : Balanced f (a ++ b) := by
  induction ha with
  | nil f => exact hb
  | single h _ ih => exact .single h (ih hb)
  | group hpair ht hinner hu _ _ ih =>
    rw [List.cons_append, List.append_assoc]
    exact .group hpair ht hinner hu (ih hb)

theorem of_bracketed {opening closing : String} (hpair : (opening, closing) ∈ f.pairs)
    (h : Bracketed opening closing a) : Balanced f a := by
  obtain ⟨t, inner, u, rfl, ht, hinner, hu⟩ := h
  exact .group hpair ht hinner hu (.nil f)

theorem mono {f g : Surface} (hadmits : g.excluded ⊆ f.excluded) (hpairs : f.pairs ⊆ g.pairs)
    (h : Balanced f a) : Balanced g a := by
  induction h with
  | nil f => exact .nil _
  | single h _ ih => exact .single (Surface.admits_mono hadmits h) (ih hadmits hpairs)
  | group hpair ht hinner hu _ _ ih => exact .group (hpairs hpair) ht hinner hu (ih hadmits hpairs)

theorem body (h : Balanced f a) : Balanced .body a :=
  h.mono (by cases f <;> decide) (by cases f <;> decide)

end Balanced

namespace Parser

variable {α β : Type}

class Balances (f : Surface) (p : Parser α) : Prop where
  taken : ∀ {ts a rest}, Takes p ts a rest → ∃ us, ts = us ++ rest ∧ Balanced f us

class Admits (f : Surface) (s : String) : Prop where
  admits : f.admits (.sign s) = true

section Instances

variable {f : Surface} {p q : Parser α} {k : α → Parser β}

instance (a : α) : Balances f (pure a : Parser α) where
  taken h := by
    obtain ⟨-, rfl⟩ := takes_pure.mp h
    exact ⟨[], rfl, .nil f⟩

theorem balanced_bind {ts mid rest us : List Token} (hts : ts = us ++ mid) (hus : Balanced f us)
    (h : ∃ vs, mid = vs ++ rest ∧ Balanced f vs) : ∃ us, ts = us ++ rest ∧ Balanced f us := by
  obtain ⟨vs, rfl, hvs⟩ := h
  exact ⟨us ++ vs, by rw [hts, List.append_assoc], hus.append hvs⟩

instance Balances.bind [Balances f p] [hk : ∀ a, Balances f (k a)] : Balances f (p >>= k) where
  taken h := by
    obtain ⟨a, mid, hp, hnext⟩ := takes_bind.mp h
    obtain ⟨us, hts, hus⟩ := Balances.taken (f := f) hp
    exact balanced_bind hts hus ((hk a).taken hnext)

instance [Balances f p] : Balances f (ignore p) where
  taken h := by
    obtain ⟨a, hp⟩ := takes_ignore.mp h
    exact Balances.taken hp

instance : Balances f (refuse : Parser α) where
  taken h := absurd h not_takes_refuse

instance : Balances f ((refuse : Parser α) >>= k) where
  taken h := by
    obtain ⟨a, mid, hrefuse, -⟩ := takes_bind.mp h
    exact absurd hrefuse not_takes_refuse

instance [Balances f p] [Balances f q] : Balances f (orElse p q) where
  taken h := by
    rcases takes_orElse h with h | h
    · exact Balances.taken h
    · exact Balances.taken h

instance [Balances f p] : Balances f (firstOf [p]) :=
  inferInstanceAs (Balances f p)

instance {ps : List (Parser α)} [Balances f p] [Balances f (firstOf (q :: ps))] :
    Balances f (firstOf (p :: q :: ps)) :=
  inferInstanceAs (Balances f (orElse p (firstOf (q :: ps))))

instance (c : Prop) [Decidable c] [Balances f p] [Balances f q] :
    Balances f (if c then p else q) := by
  split
  · infer_instance
  · infer_instance

instance [Balances f p] : Balances f (optional p) where
  taken h := by
    rcases takes_optional h with ⟨a, -, h⟩ | ⟨-, rfl⟩
    · exact Balances.taken h
    · exact ⟨[], rfl, .nil f⟩

instance [Balances f p] : Balances f (many p) where
  taken h := by
    have hrepeats := repeats_of_many h
    clear h
    induction hrepeats with
    | stop ts => exact ⟨[], rfl, .nil f⟩
    | next hp _ ih =>
      obtain ⟨us, rfl, hus⟩ := Balances.taken (f := f) hp
      exact balanced_bind rfl hus ih

instance {step : α → Parser α} [∀ a, Balances f (step a)] (a : α) :
    Balances f (iterate step a) where
  taken h := by
    have hiterates := iterates_of_iterate h
    clear h
    induction hiterates with
    | stop ts a => exact ⟨[], rfl, .nil f⟩
    | next hstep _ ih =>
      obtain ⟨us, rfl, hus⟩ := Balances.taken (f := f) hstep
      exact balanced_bind rfl hus ih

instance {separator : Parser β} [Balances f p] [Balances f separator] :
    Balances f (separated p separator) :=
  inferInstanceAs (Balances f (p >>= fun head => many (separator >>= fun _ => p) >>= fun more =>
    pure (head :: more)))

instance : Balances f peek where
  taken h := ⟨[], (takes_peek h).1.symm, .nil f⟩

instance : Balances f peekTwo where
  taken h := ⟨[], (takes_peekTwo h).1.symm, .nil f⟩

instance : Balances f (lookahead p) where
  taken h := ⟨[], (takes_lookahead h).symm, .nil f⟩

theorem balances_tokenWhere {is : Token → Bool} (h : ∀ t, is t = true → f.admits t.kind = true) :
    Balances f (tokenWhere is) where
  taken htakes := by
    obtain ⟨rfl, ht⟩ := takes_tokenWhere htakes
    exact ⟨[_], rfl, .token (h _ ht)⟩

theorem balances_tokenWhere_and {is also : Token → Bool}
    (h : ∀ t, is t = true → f.admits t.kind = true) :
    Balances f (tokenWhere fun t => is t && also t) :=
  balances_tokenWhere fun t ht => h t (Bool.and_eq_true_iff.mp ht).1

theorem admits_of_isSign {s : String} [hs : Admits f s] (t : Token) (ht : isSign s t = true) :
    f.admits t.kind = true := by
  rw [of_decide_eq_true ht]
  exact hs.admits

theorem isAnyWord_iff {t : Token} : isAnyWord t = true ↔ ∃ s, t.kind = .word s := by
  unfold isAnyWord
  cases t.kind <;> simp

theorem admits_of_isAnyWord (t : Token) (ht : isAnyWord t = true) : f.admits t.kind = true := by
  obtain ⟨s, hs⟩ := isAnyWord_iff.mp ht
  rw [hs]
  rfl

theorem admits_of_isWord {s : String} (t : Token) (ht : isWord s t = true) :
    f.admits t.kind = true := by
  rw [of_decide_eq_true ht]
  rfl

instance (s : String) [Admits f s] : Balances f (sign s) := balances_tokenWhere admits_of_isSign

instance (s : String) : Balances f (keyword s) := balances_tokenWhere admits_of_isWord

instance : Balances f identifier where
  taken h := by
    obtain ⟨t, s, rfl, ht, -⟩ := takes_identifier h
    exact ⟨[t], rfl, .token (by rw [ht]; rfl)⟩

instance [Balances f p] : Balances f (withSpan p) where
  taken h := Balances.taken (takes_withSpan h).1

theorem bracketed_of_enclosed [Balances .body p] {opening closing : String} {ts rest : List Token}
    {a : α} (h : Takes (enclosed opening p closing) ts a rest) :
    ∃ us, ts = us ++ rest ∧ Bracketed opening closing us := by
  obtain ⟨t, mid, hopening, hinside⟩ := takes_bind.mp h
  obtain ⟨a', late, hp, hend⟩ := takes_bind.mp hinside
  obtain ⟨u, last, hclosing, hpure⟩ := takes_bind.mp hend
  obtain ⟨rfl, rfl⟩ := takes_pure.mp hpure
  obtain ⟨hts, ht⟩ := takes_sign hopening
  obtain ⟨inner, rfl, hinner⟩ := Balances.taken (f := .body) hp
  obtain ⟨rfl, hu⟩ := takes_sign hclosing
  exact ⟨t :: (inner ++ [u]), by simp [hts], t, inner, u, rfl, ht, hinner, hu⟩

theorem balances_enclosed [Balances .body p] {opening closing : String}
    (hpair : (opening, closing) ∈ f.pairs) : Balances f (enclosed opening p closing) where
  taken h := by
    obtain ⟨us, hts, hus⟩ := bracketed_of_enclosed h
    exact ⟨us, hts, .of_bracketed hpair hus⟩

instance [Balances .body p] : Balances f (enclosed "(" p ")") := balances_enclosed f.round_mem

instance [Balances .body p] : Balances f (enclosed "[" p "]") := balances_enclosed f.square_mem

instance [Balances .body p] [f.Loose] : Balances f (enclosed "\x7b" p "\x7d") :=
  balances_enclosed Surface.Loose.brace_mem

end Instances

section Signs

variable (f : Surface)

instance : Admits f "," := ⟨by cases f <;> decide⟩
instance : Admits f "." := ⟨by cases f <;> decide⟩
instance : Admits f "..." := ⟨by cases f <;> decide⟩
instance : Admits f "<" := ⟨by cases f <;> decide⟩
instance : Admits f ">" := ⟨by cases f <;> decide⟩
instance : Admits f "&" := ⟨by cases f <;> decide⟩
instance : Admits f "|" := ⟨by cases f <;> decide⟩
instance : Admits f "?" := ⟨by cases f <;> decide⟩
instance : Admits f ":" := ⟨by cases f <;> decide⟩
instance : Admits f "::" := ⟨by cases f <;> decide⟩
instance : Admits f "->" := ⟨by cases f <;> decide⟩
instance : Admits f "@" := ⟨by cases f <;> decide⟩
instance : Admits f "*" := ⟨by cases f <;> decide⟩
instance : Admits f "++" := ⟨by cases f <;> decide⟩
instance : Admits f "--" := ⟨by cases f <;> decide⟩
instance : Admits .body ";" := ⟨by decide⟩
instance [f.Loose] : Admits f "=" := ⟨Surface.admits_loose (by decide)⟩
instance [f.Loose] : Admits f "-" := ⟨Surface.admits_loose (by decide)⟩

end Signs

section Combined

variable {f : Surface} {p : Parser α}

instance [Balances f p] : Balances f (enclosed "<" p ">") := by
  unfold enclosed
  infer_instance

instance [Balances f p] : Balances f (commaSeparated p) := by
  unfold commaSeparated
  infer_instance

instance : Balances f qualifiedName := by
  unfold qualifiedName
  infer_instance

/-- A parser takes a closing bracket, and before and after it tokens whose brackets match. -/
class Closes (f : Surface) (closing : String) (p : Parser α) : Prop where
  taken : ∀ {ts a rest}, Takes p ts a rest → ∃ inner u more, ts = inner ++ u :: (more ++ rest) ∧
    Balanced .body inner ∧ u.kind = .sign closing ∧ Balanced f more

section Closing

variable {closing : String} {k : α → Parser β} {l : Token → Parser β}

instance [Balances .body p] [hk : ∀ a, Closes f closing (k a)] : Closes f closing (p >>= k) where
  taken h := by
    obtain ⟨a, mid, hp, hnext⟩ := takes_bind.mp h
    obtain ⟨us, rfl, hus⟩ := Balances.taken (f := .body) hp
    obtain ⟨inner, u, more, rfl, hinner, hu, hmore⟩ := (hk a).taken hnext
    exact ⟨us ++ inner, u, more, (List.append_assoc us inner _).symm, hus.append hinner, hu, hmore⟩

instance [hl : ∀ t, Balances f (l t)] : Closes f closing (sign closing >>= l) where
  taken h := by
    obtain ⟨u, mid, hsign, hnext⟩ := takes_bind.mp h
    obtain ⟨hts, hu⟩ := takes_sign hsign
    obtain ⟨more, rfl, hmore⟩ := (hl u).taken hnext
    exact ⟨[], u, more, hts, .nil _, hu, hmore⟩

instance : Closes f closing (ignore (sign closing)) :=
  inferInstanceAs (Closes f closing (sign closing >>= fun _ => pure ()))

theorem balances_opening {opening : String} (hpair : (opening, closing) ∈ f.pairs)
    [hl : ∀ t, Closes f closing (l t)] : Balances f (sign opening >>= l) where
  taken h := by
    obtain ⟨t, mid, hsign, hnext⟩ := takes_bind.mp h
    obtain ⟨hts, ht⟩ := takes_sign hsign
    obtain ⟨inner, u, more, rfl, hinner, hu, hmore⟩ := (hl t).taken hnext
    exact ⟨t :: (inner ++ u :: more), by simp [hts], .group hpair ht hinner hu hmore⟩

instance [∀ t, Closes f ")" (l t)] : Balances f (sign "(" >>= l) := balances_opening f.round_mem

instance [∀ t, Closes f "]" (l t)] : Balances f (sign "[" >>= l) := balances_opening f.square_mem

instance [∀ t, Closes f "\x7d" (l t)] [f.Loose] : Balances f (sign "\x7b" >>= l) :=
  balances_opening Surface.Loose.brace_mem

end Closing

def BalancesAt (f : Surface) (t : Token) (p : Parser α) : Prop :=
  ∀ ts a rest, ts.head? = some t → Takes p ts a rest → ∃ us, ts = us ++ rest ∧ Balanced f us

theorem Balances.at [Balances f p] (t : Token) : BalancesAt f t p :=
  fun _ _ _ _ h => Balances.taken h

theorem BalancesAt.token {t : Token} (ht : f.admits t.kind = true) (is : Token → Bool) :
    BalancesAt f t (tokenWhere is) := by
  intro ts a rest hhead h
  obtain ⟨rfl, -⟩ := takes_tokenWhere h
  obtain rfl := Option.some.inj hhead
  exact ⟨[a], rfl, .token ht⟩

theorem BalancesAt.bind {t : Token} {k : α → Parser β} (hp : BalancesAt f t p)
    [hk : ∀ a, Balances f (k a)] : BalancesAt f t (p >>= k) := by
  intro ts b rest hhead h
  obtain ⟨a, mid, hfirst, hnext⟩ := takes_bind.mp h
  obtain ⟨us, hts, hus⟩ := hp _ _ _ hhead hfirst
  exact balanced_bind hts hus ((hk a).taken hnext)

theorem BalancesAt.pure_bind {t : Token} {k : α → Parser β} {a : α} (h : BalancesAt f t (k a)) :
    BalancesAt f t (pure a >>= k) := by
  intro ts b rest hhead htakes
  obtain ⟨a', mid, hpure, hk⟩ := takes_bind.mp htakes
  obtain ⟨rfl, rfl⟩ := takes_pure.mp hpure
  exact h _ _ _ hhead hk

theorem balances_peek {k : Token → Parser α} (h : ∀ t, BalancesAt f t (k t)) :
    Balances f (peek >>= k) where
  taken htakes := by
    obtain ⟨t, mid, hpeek, hk⟩ := takes_bind.mp htakes
    obtain ⟨rfl, hhead⟩ := takes_peek hpeek
    exact h t _ _ _ hhead hk

theorem balances_peekTwo {k : Token × Option Token → Parser α}
    (h : ∀ t next, BalancesAt f t (k (t, next))) : Balances f (peekTwo >>= k) where
  taken htakes := by
    obtain ⟨⟨t, next⟩, mid, hpeek, hk⟩ := takes_bind.mp htakes
    obtain ⟨rfl, hhead⟩ := takes_peekTwo hpeek
    exact h t next _ _ _ hhead hk

end Combined

end Parser

end LookupGen.Java
