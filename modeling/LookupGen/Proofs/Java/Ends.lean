import LookupGen.Proofs.Java.Advance

/-!
# How operands end

The text of an operand may be the owner of a field, and is looked up like the name of a type then.
The last token of an operand that is more than one token closes something, or it is a word right
after a sign.
-/

namespace LookupGen.Java

open Java.Parser

/-- The tokens that close a part of an operand. -/
def Token.Closes (t : Token) : Prop :=
  t.kind = .string ∨ t.kind = .sign ")" ∨ t.kind = .sign "]" ∨ t.kind = .sign "\x7d"

def Token.Separates (t : Token) : Prop :=
  t.kind = .sign "." ∨ t.kind = .sign "::" ∨ t.kind = .sign ">"

/-- Tokens that end with one that closes something, or with a word after a sign. -/
inductive Ended : List Token → Prop where
  | closed (before : List Token) {t : Token} (h : t.Closes) : Ended (before ++ [t])
  | named (before : List Token) {t w : Token} {s : String} (h : t.Separates)
      (hw : w.kind = .word s) : Ended (before ++ [t, w])

theorem Ended.append (before : List Token) {ts : List Token} (h : Ended ts) :
    Ended (before ++ ts) := by
  cases h with
  | closed more h => exact List.append_assoc before more _ ▸ .closed (before ++ more) h
  | named more h hw => exact List.append_assoc before more _ ▸ .named (before ++ more) h hw

theorem Ended.ne_nil {ts : List Token} (h : Ended ts) : ts ≠ [] := by
  cases h with
  | closed before h => exact List.append_ne_nil_of_right_ne_nil before (List.cons_ne_nil _ _)
  | named before h hw => exact List.append_ne_nil_of_right_ne_nil before (List.cons_ne_nil _ _)

namespace Parser

variable {α β : Type}

def Ends (p : Parser α) : Prop :=
  ∀ ts a rest, Takes p ts a rest → ∃ us, ts = us ++ rest ∧ Ended us

def MayEnd (p : Parser α) : Prop :=
  ∀ ts a rest, Takes p ts a rest → ∃ us, ts = us ++ rest ∧ (us = [] ∨ Ended us)

variable {p q : Parser α} {f : α → Parser β}

theorem Ends.mayEnd (h : Ends p) : MayEnd p := by
  intro ts a rest htakes
  obtain ⟨us, hts, hus⟩ := h ts a rest htakes
  exact ⟨us, hts, .inr hus⟩

theorem mayEnd_pure (a : α) : MayEnd (pure a : Parser α) := by
  intro ts b rest h
  obtain ⟨-, rfl⟩ := takes_pure.mp h
  exact ⟨[], rfl, .inl rfl⟩

theorem mayEnd_peek : MayEnd peek := by
  intro ts t rest h
  obtain ⟨rfl, -⟩ := takes_peek h
  exact ⟨[], rfl, .inl rfl⟩

theorem ends_refuse : Ends (refuse : Parser α) := fun _ _ _ h => absurd h not_takes_refuse

theorem exists_of_advances [Advances p] {ts rest : List Token} {a : α} (h : Takes p ts a rest) :
    ∃ us, ts = us ++ rest := by
  obtain ⟨us, hus⟩ := Advances.suffix h
  exact ⟨us, hus.symm⟩

theorem ends_bind [Advances p] (h : ∀ a, Ends (f a)) : Ends (p >>= f) := by
  intro ts b rest htakes
  obtain ⟨a, mid, hp, hf⟩ := takes_bind.mp htakes
  obtain ⟨vs, rfl⟩ := exists_of_advances hp
  obtain ⟨us, rfl, hus⟩ := h a _ _ _ hf
  exact ⟨vs ++ us, (List.append_assoc vs us rest).symm, hus.append vs⟩

theorem Ends.bind (hp : Ends p) (hf : ∀ a, MayEnd (f a)) : Ends (p >>= f) := by
  intro ts b rest htakes
  obtain ⟨a, mid, hleft, hright⟩ := takes_bind.mp htakes
  obtain ⟨vs, rfl, hvs⟩ := hp _ _ _ hleft
  obtain ⟨us, rfl, hus⟩ := hf a _ _ _ hright
  refine ⟨vs ++ us, (List.append_assoc vs us rest).symm, ?_⟩
  rcases hus with rfl | hus
  · rw [List.append_nil]
    exact hvs
  · exact hus.append vs

theorem MayEnd.bind (hp : MayEnd p) (hf : ∀ a, MayEnd (f a)) : MayEnd (p >>= f) := by
  intro ts b rest htakes
  obtain ⟨a, mid, hleft, hright⟩ := takes_bind.mp htakes
  obtain ⟨vs, rfl, hvs⟩ := hp _ _ _ hleft
  obtain ⟨us, rfl, hus⟩ := hf a _ _ _ hright
  refine ⟨vs ++ us, (List.append_assoc vs us rest).symm, ?_⟩
  rcases hus with rfl | hus
  · rw [List.append_nil]
    exact hvs
  · exact .inr (hus.append vs)

theorem Ends.then_pure (hp : Ends p) (b : α → β) : Ends (p >>= fun a => pure (b a)) :=
  hp.bind fun a => mayEnd_pure (b a)

theorem Ends.ignore (hp : Ends p) : Ends (ignore p) := hp.then_pure fun _ => ()

theorem Ends.orElse (hp : Ends p) (hq : Ends q) : Ends (orElse p q) := by
  intro ts a rest h
  rcases takes_orElse h with h | h
  · exact hp _ _ _ h
  · exact hq _ _ _ h

theorem Ends.optional (hp : Ends p) : MayEnd (optional p) := by
  intro ts o rest h
  rcases takes_optional h with ⟨a, -, h⟩ | ⟨-, rfl⟩
  · exact hp.mayEnd _ _ _ h
  · exact ⟨[], rfl, .inl rfl⟩

theorem Ends.repeats (hp : Ends p) {ts rest : List Token} {all : List α}
    (h : Repeats p ts all rest) : ∃ us, ts = us ++ rest ∧ (all = [] ∧ us = [] ∨ Ended us) := by
  induction h with
  | stop ts => exact ⟨[], rfl, .inl ⟨rfl, rfl⟩⟩
  | next htakes _ ih =>
    obtain ⟨vs, rfl, hvs⟩ := hp _ _ _ htakes
    obtain ⟨us, rfl, hus⟩ := ih
    refine ⟨vs ++ us, (List.append_assoc vs us _).symm, .inr ?_⟩
    rcases hus with ⟨-, rfl⟩ | hus
    · rw [List.append_nil]
      exact hvs
    · exact hus.append vs

theorem Ends.many (hp : Ends p) : MayEnd (many p) := by
  intro ts all rest h
  obtain ⟨us, hts, hus⟩ := hp.repeats (repeats_of_many h)
  exact ⟨us, hts, hus.imp_left And.right⟩

theorem ends_sign {s : String} (hs : s = ")" ∨ s = "]" ∨ s = "\x7d") : Ends (sign s) := by
  intro ts t rest h
  obtain ⟨rfl, ht⟩ := takes_sign h
  refine ⟨[t], rfl, .closed [] (.inr ?_)⟩
  rcases hs with rfl | rfl | rfl
  · exact .inl ht
  · exact .inr (.inl ht)
  · exact .inr (.inr ht)

theorem ends_enclosed [Advances p] (opening : String) {closing : String}
    (hs : closing = ")" ∨ closing = "]" ∨ closing = "\x7d") : Ends (enclosed opening p closing) :=
  ends_bind fun _ => ends_bind fun a => (ends_sign hs).then_pure fun _ => a

theorem ends_identifier_after {ts mid rest : List Token} {t : Token} {n : Name}
    (hts : ts = t :: mid) (ht : t.Separates) (h : Takes identifier mid n rest) :
    ∃ us, ts = us ++ rest ∧ Ended us := by
  obtain ⟨w, s, rfl, hw, -⟩ := takes_identifier h
  exact ⟨[t, w], hts, .named [] ht hw⟩

end Parser

structure Rules.Ended (r : Rules) : Prop where
  typeArguments : ∀ ts u rest, Takes r.typeArguments ts u rest →
    ∃ us t, ts = us ++ t :: rest ∧ t.kind = .sign ">"
  arrayInitializer : Ends r.arrayInitializer

section Rules

variable {r : Rules} [r.Advance]

theorem takes_typeArgumentsRule {ts rest : List Token} {u : Unit}
    (h : Takes (typeArgumentsRule r) ts u rest) :
    ∃ us t, ts = us ++ t :: rest ∧ t.kind = .sign ">" := by
  obtain ⟨a, h⟩ := takes_ignore.mp h
  obtain ⟨t, mid, u, rfl, hp, hu⟩ := takes_enclosed h
  obtain ⟨us, rfl⟩ := exists_of_advances hp
  exact ⟨t :: us, u, rfl, hu⟩

theorem ends_arrayInitializerRule : Ends (arrayInitializerRule r) :=
  (ends_enclosed _ (.inr (.inr rfl))).ignore

theorem ends_arguments : Ends (arguments r) := (ends_enclosed _ (.inl rfl)).ignore

theorem ends_classBody : Ends (classBody r) := (ends_enclosed _ (.inr (.inr rfl))).ignore

theorem ends_dimensions : Ends (dimensions r) := by
  have hone : Ends (do
      let _ ← many r.annotationUse
      let _ ← sign "["
      ignore (sign "]")) :=
    ends_bind fun _ => ends_bind fun _ => (ends_sign (.inr (.inl rfl))).ignore
  unfold dimensions
  intro ts n rest h
  obtain ⟨result, mid, hspan, hpure⟩ := takes_bind.mp h
  obtain ⟨-, rfl⟩ := takes_pure.mp hpure
  exact (hone.bind fun _ => hone.many) _ _ _ (takes_withSpan hspan).1

theorem ends_creationRest (hr : r.Ended) : Ends (creationRest r) := by
  unfold creationRest
  refine ends_bind fun t => ?_
  split
  · apply ends_arguments.bind
    intro _
    apply mayEnd_peek.bind
    intro next
    split
    · exact ends_classBody.mayEnd
    · exact mayEnd_pure ()
  · have hsize : Ends (do
        let _ ← many r.annotationUse
        ignore (enclosed "[" r.expression "]")) :=
      ends_bind fun _ => (ends_enclosed _ (.inr (.inl rfl))).ignore
    intro ts u rest htakes
    obtain ⟨sizes, mid, hsizes, hafter⟩ := takes_bind.mp htakes
    obtain ⟨empty, late, hempty, hlast⟩ := takes_bind.mp hafter
    obtain ⟨next, last, hpeek, h⟩ := takes_bind.mp hlast
    obtain ⟨us, rfl, hus⟩ := hsize.repeats (repeats_of_many hsizes)
    obtain ⟨vs, rfl, hvs⟩ := ends_dimensions.optional _ _ _ hempty
    obtain ⟨rfl, -⟩ := takes_peek hpeek
    split at h
    · obtain ⟨ws, rfl, hws⟩ := hr.arrayInitializer _ _ _ h
      exact ⟨us ++ (vs ++ ws), by simp, (hws.append vs).append us⟩
    · split at h
      · exact absurd h not_takes_refuse
      · rename_i hnone
        obtain ⟨-, rfl⟩ := takes_pure.mp h
        have hus : Java.Ended us := by
          rcases hus with ⟨rfl, -⟩ | hus
          · exact absurd rfl hnone
          · exact hus
        refine ⟨us ++ vs, by simp, ?_⟩
        rcases hvs with rfl | hvs
        · rw [List.append_nil]
          exact hus
        · exact hvs.append us

theorem ends_creation (hr : r.Ended) : Ends (creation r) :=
  ends_bind fun _ => ends_bind fun _ => ends_bind fun _ => ends_bind fun _ => ends_bind fun _ =>
    ends_creationRest hr

omit [r.Advance] in
/-- Type arguments between a sign and a word leave a sign in front of the word. -/
theorem separates_of_typeArguments (hr : r.Ended) {ts mid late : List Token} {t : Token}
    {o : Option Unit} (hts : ts = t :: mid) (ht : t.Separates)
    (h : Takes (optional r.typeArguments) mid o late) :
    ∃ us s, ts = us ++ s :: late ∧ s.Separates := by
  rcases takes_optional h with ⟨a, rfl, harguments⟩ | ⟨rfl, rfl⟩
  · obtain ⟨us, gt, rfl, hgt⟩ := hr.typeArguments _ _ _ harguments
    exact ⟨t :: us, gt, hts, .inr (.inr hgt)⟩
  · exact ⟨[], t, hts, ht⟩

omit [r.Advance] in
theorem ends_methodReferenceRest (hr : r.Ended) : Ends (methodReferenceRest r) := by
  intro ts u rest htakes
  obtain ⟨t, mid, hsign, hafter⟩ := takes_bind.mp htakes
  obtain ⟨o, late, harguments, hname⟩ := takes_bind.mp hafter
  obtain ⟨n, hname⟩ := takes_ignore.mp hname
  obtain ⟨hts, ht⟩ := takes_sign hsign
  obtain ⟨us, s, rfl, hs⟩ := separates_of_typeArguments hr hts (.inr (.inl ht)) harguments
  obtain ⟨vs, hvs, hended⟩ := ends_identifier_after rfl hs hname
  exact ⟨us ++ vs, by rw [hvs, List.append_assoc], hended.append us⟩

theorem ends_typeExpression (hr : r.Ended) : Ends (typeExpression r) := by
  unfold typeExpression
  refine ends_bind fun _ => ends_bind fun t => ?_
  split
  · exact ends_methodReferenceRest hr
  · intro ts u rest htakes
    obtain ⟨dot, mid, hsign, hword⟩ := takes_bind.mp htakes
    obtain ⟨w, hword⟩ := takes_ignore.mp hword
    obtain ⟨rfl, hdot⟩ := takes_sign hsign
    obtain ⟨rfl, hw⟩ := takes_keyword hword
    exact ⟨[dot, w], rfl, .named [] (.inl hdot) hw⟩

section Operands

variable {conditional : Parser Operand} [Advances conditional]

theorem ends_switchExpression : Ends (switchExpression r conditional) := by
  have hblock : Ends (switchBlock r conditional) :=
    (ends_enclosed _ (.inr (.inr rfl))).orElse (ends_enclosed _ (.inr (.inr rfl))).ignore
  exact ends_bind fun _ => ends_bind fun _ => hblock

theorem ends_named {ts mid rest : List Token} {t : Token} {n : Name} {owner : List Glyph}
    {o : Operand} {c : Bool} (hts : ts = t :: mid) (ht : t.Separates) {late : List Token}
    (hname : Takes identifier mid n late)
    (h : Takes (if c = true then (do
        arguments r
        pure otherOperand) else pure ⟨.field (Glyph.text owner) n, true⟩) late o rest) :
    ∃ us, ts = us ++ rest ∧ Java.Ended us := by
  obtain ⟨us, heq, hus⟩ := ends_identifier_after hts ht hname
  split at h
  · obtain ⟨vs, rfl, hvs⟩ := (ends_arguments.then_pure _) _ _ _ h
    exact ⟨us ++ vs, by rw [heq, List.append_assoc], hvs.append us⟩
  · obtain ⟨-, rfl⟩ := takes_pure.mp h
    exact ⟨us, heq, hus⟩

theorem ends_memberAfterDot (hr : r.Ended) (owner : List Glyph) :
    Ends (memberAfterDot r owner) := by
  intro ts o rest htakes
  obtain ⟨dot, mid, hsign, hafter⟩ := takes_bind.mp htakes
  obtain ⟨⟨t, next⟩, late, hpeek, h⟩ := takes_bind.mp hafter
  obtain ⟨rfl, hdot⟩ := takes_sign hsign
  obtain ⟨rfl, hhead⟩ := takes_peekTwo hpeek
  have hmore {p : Parser Operand} (hp : Ends p) (h : Takes p late o rest) :
      ∃ us, dot :: late = us ++ rest ∧ Java.Ended us := by
    obtain ⟨us, rfl, hus⟩ := hp _ _ _ h
    exact ⟨dot :: us, rfl, hus.append [dot]⟩
  dsimp only at h
  split at h
  · rename_i hkind
    obtain ⟨u, last, hu, hpure⟩ := takes_bind.mp h
    obtain ⟨-, rfl⟩ := takes_pure.mp hpure
    obtain ⟨rfl, -⟩ := takes_tokenWhere hu
    obtain rfl := Option.some.inj hhead
    exact ⟨[dot, u], rfl, .closed [dot] (.inl hkind)⟩
  · exact hmore (ends_bind fun _ => ends_bind fun _ => ends_arguments.then_pure _) h
  · exact hmore ((ends_creation hr).then_pure _) h
  · obtain ⟨name, last, hname, hrest⟩ := takes_bind.mp h
    obtain ⟨w, s, rfl, -, -⟩ := takes_identifier hname
    obtain ⟨after, same, hpeek, hcall⟩ := takes_bind.mp hrest
    obtain ⟨rfl, -⟩ := takes_peek hpeek
    split at hcall
    · obtain ⟨us, rfl, hus⟩ := ((ends_methodReferenceRest hr).then_pure _) _ _ _ hcall
      exact ⟨[dot, w] ++ us, rfl, hus.append _⟩
    · obtain ⟨second, inner, hsecond, hafter⟩ := takes_bind.mp hcall
      obtain ⟨o', outer, harguments, hnamed⟩ := takes_bind.mp hafter
      obtain ⟨name, last, hname, hpeeked⟩ := takes_bind.mp hnamed
      obtain ⟨next, same, hpeek, hlast⟩ := takes_bind.mp hpeeked
      obtain ⟨rfl, -⟩ := takes_peek hpeek
      obtain ⟨hts, hsecond⟩ := takes_sign hsecond
      obtain ⟨us, t, heq, ht⟩ := separates_of_typeArguments hr hts (.inl hsecond) harguments
      obtain ⟨vs, hvs, hended⟩ := ends_named rfl ht hname hlast
      exact ⟨[dot, w] ++ us ++ vs, by rw [heq, hvs]; simp, hended.append _⟩
  · obtain ⟨name, last, hname, hcall⟩ := takes_bind.mp h
    exact ends_named rfl (.inl hdot) hname hcall
  · exact absurd h not_takes_refuse

theorem ends_suffix (hr : r.Ended) (owner : List Glyph) : Ends (suffix r owner) := by
  unfold suffix
  refine ends_bind fun t => ?_
  split
  · exact ends_memberAfterDot hr owner
  · exact (ends_enclosed _ (.inr (.inl rfl))).then_pure _
  · exact (ends_methodReferenceRest hr).then_pure _
  · exact ends_refuse

/-- The tokens of an operand: a single one, or several that end like an operand. -/
def OperandTokens (ts : List Token) : Prop := (∃ t, ts = [t]) ∨ Java.Ended ts

theorem OperandTokens.ne_nil {ts : List Token} (h : OperandTokens ts) : ts ≠ [] := by
  rcases h with ⟨t, rfl⟩ | h
  · exact List.cons_ne_nil t []
  · exact h.ne_nil

theorem operandTokens_of_operandHead (hr : r.Ended) {ts rest : List Token} {o : Operand}
    (htakes : Takes (operandHead r conditional) ts o rest) :
    ∃ us, ts = us ++ rest ∧ OperandTokens us := by
  have hends {p : Parser Operand} (hp : Ends p) (h : Takes p ts o rest) :
      ∃ us, ts = us ++ rest ∧ OperandTokens us := by
    obtain ⟨us, hts, hus⟩ := hp _ _ _ h
    exact ⟨us, hts, .inr hus⟩
  obtain ⟨⟨t, next⟩, same, hpeek, h⟩ := takes_bind.mp htakes
  obtain ⟨rfl, -⟩ := takes_peekTwo hpeek
  have hliteral {o' : Operand} (h : Takes (do
      let _ ← tokenWhere fun _ => true
      pure o') same o rest) : ∃ us, same = us ++ rest ∧ OperandTokens us := by
    obtain ⟨u, last, hu, hpure⟩ := takes_bind.mp h
    obtain ⟨-, rfl⟩ := takes_pure.mp hpure
    obtain ⟨rfl, -⟩ := takes_tokenWhere hu
    exact ⟨[u], rfl, .inl ⟨u, rfl⟩⟩
  dsimp only at h
  split at h
  · exact hliteral h
  · exact hliteral h
  · exact hliteral h
  · exact hliteral h
  · exact hends ((ends_enclosed _ (.inl rfl)).then_pure _) h
  · exact hliteral h
  · exact hliteral h
  · exact hliteral h
  · exact hliteral h
  · split at h
    · exact hliteral h
    · exact absurd h not_takes_refuse
  · exact hends ((ends_creation hr).then_pure _) h
  · exact hends (ends_switchExpression.then_pure _) h
  · exact absurd h not_takes_refuse
  · split at h
    · exact absurd h not_takes_refuse
    · obtain ⟨name, late, hname, hcall⟩ := takes_bind.mp h
      obtain ⟨w, s, rfl, -, -⟩ := takes_identifier hname
      split at hcall
      · obtain ⟨us, rfl, hus⟩ := (ends_arguments.then_pure _) _ _ _ hcall
        exact ⟨w :: us, rfl, .inr (hus.append [w])⟩
      · obtain ⟨-, rfl⟩ := takes_pure.mp hcall
        exact ⟨[w], rfl, .inl ⟨w, rfl⟩⟩
  · exact absurd h not_takes_refuse

end Operands

end Rules

/-- By induction on the depth. -/
theorem ended_rules (depth : Nat) : (rules depth).Ended := by
  cases depth with
  | zero => exact ⟨fun _ _ _ h => absurd h not_takes_refuse, ends_refuse⟩
  | succ depth => exact ⟨fun _ _ _ h => takes_typeArgumentsRule h, ends_arrayInitializerRule⟩

end LookupGen.Java
