import LookupGen.Proofs.Java.Outlined.Members
import LookupGen.Proofs.Java.Reading

/-!
# Files and their outlines

The items that the grammar takes from a file are those of its outline.

This module does NOT say that a file has one outline only.
-/

namespace LookupGen.Java

open Java.Parser

section Rules

variable {r : Rules} [r.Balance]

/-- What a rule gives besides nothing is an item with its tokens. -/
def GivesItem (p : Parser (Option Item)) : Prop :=
  Gives p fun us o => ∀ item, o = some item → ItemTokens us item

section Items

omit [r.Balance] in
theorem givesItem_some {p : Parser Item} (hp : Gives p ItemTokens) : GivesItem (do
    let item ← p
    pure (some item)) := by
  refine hp.bind ?_
  intro us item hus
  apply gives_pure
  rintro other ⟨⟩
  rwa [List.append_nil]

theorem givesItem_none {p : Parser Unit} [Balances .body p] : GivesItem (do
    p
    pure none) :=
  (gives_of_balances .body).bind fun _ _ _ => gives_pure nofun

omit [r.Balance] in
theorem gives_packageDeclaration (hr : r.Outlined) : Gives (packageDeclaration r) ItemTokens := by
  have hannotations : Gives (many r.annotationUse) fun us all => ModifierTokens all.length us :=
    hr.annotationUse.many .nil fun us a vs as hus hvs => .marked hus hvs
  refine hannotations.bind ?_
  intro modifiers all hmodifiers
  refine (gives_keyword "package").bind ?_
  rintro _ t ⟨rfl, ht⟩
  refine gives_qualifiedName.bind ?_
  rintro name _ ⟨hname, rfl⟩
  refine (gives_sign ";").bind ?_
  rintro _ u ⟨rfl, hu⟩
  exact gives_pure (.package hmodifiers ht hname hu)

theorem gives_importDeclaration : Gives importDeclaration ItemTokens := by
  refine (gives_keyword "import").bind ?_
  rintro _ t ⟨rfl, ht⟩
  refine gives_peek fun start => ?_
  dsimp only
  have hrest {front : List Token} {form : Option Token → ImportForm}
      (hfront : Balanced .header front) :
      Gives (do
        let name ← qualifiedName
        let onDemand ← optional (do
          let _ ← sign "."
          sign "*")
        let _ ← sign ";"
        pure (Item.import (form onDemand) name)) fun us item =>
          ItemTokens ([t] ++ (front ++ us)) item := by
    refine (gives_of_balances .header).bind ?_
    intro name _ hname
    refine (gives_of_balances .header).bind ?_
    intro star _ hstar
    refine (gives_sign ";").bind ?_
    rintro _ u ⟨rfl, hu⟩
    apply gives_pure
    simpa using ItemTokens.import ht (hfront.append (hname.append hstar)) hu
  split
  · refine (gives_of_balances .header).bind ?_
    intro front _ hfront
    exact hrest hfront
  · exact hrest (.nil _)

omit [r.Balance] in
theorem gives_declaredType (hr : r.Outlined) : Gives (declaredType r) TypeTokens := by
  refine gives_start fun start => (gives_modifiers hr).bind ?_
  intro modifiers m hmodifiers
  refine gives_peekTwo fun t next => ?_
  dsimp only
  split
  · refine (hr.typeDeclaration m start.line).mono ?_
    intro us d hus
    exact ⟨List.append_ne_nil_of_right_ne_nil _ hus.ne_nil, hus.tokens modifiers hmodifiers⟩
  · exact gives_refuse

theorem givesItem_declaration (hr : r.Outlined) : GivesItem (firstOf [
    do
      let d ← declaredType r
      pure (some (.type d)),
    do
      let i ← packageDeclaration r
      pure (some i),
    do
      moduleDeclaration r
      pure none]) := by
  apply gives_firstOf
  simp only [List.forall_mem_cons, List.not_mem_nil, false_imp_iff, implies_true, and_true]
  refine ⟨?_, givesItem_some (gives_packageDeclaration hr), givesItem_none⟩
  refine (gives_declaredType hr).bind ?_
  intro us d hus
  apply gives_pure
  rintro item ⟨⟩
  rw [List.append_nil]
  exact .type hus

theorem givesItem_or {p : Parser Unit} {q : Parser (Option Item)} [Balances .body p]
    (hq : GivesItem q) : GivesItem (firstOf [q, do
      p
      pure none]) := by
  apply gives_firstOf
  simp only [List.forall_mem_cons, List.not_mem_nil, false_imp_iff, implies_true, and_true]
  exact ⟨hq, givesItem_none⟩

theorem givesItem_statementRule (hr : r.Outlined) : GivesItem (statementRule r) := by
  have hdeclaration := givesItem_declaration hr
  unfold statementRule
  refine gives_peekTwo fun t next => ?_
  dsimp only
  split
  · exact givesItem_none
  · exact givesItem_none
  · exact givesItem_or hdeclaration
  · exact hdeclaration
  · split
    · exact givesItem_some gives_importDeclaration
    · split
      · exact givesItem_none
      · split
        · exact hdeclaration
        · split
          · exact givesItem_or hdeclaration
          · split
            · exact givesItem_or hdeclaration
            · exact givesItem_none
  · exact givesItem_none

end Items

end Rules

theorem outlined_rules (depth : Nat) : (rules depth).Outlined := by
  induction depth with
  | zero =>
    exact ⟨gives_refuse, gives_refuse, fun _ _ => gives_refuse, fun _ => gives_refuse, gives_refuse⟩
  | succ depth ih =>
    exact {
      annotationUse := gives_annotationRule
      block := gives_blockRule
      typeDeclaration := gives_typeDeclarationRule ih
      members := gives_membersRule ih
      statement := givesItem_statementRule ih }

namespace Token

theorem Formed.ne_finish {kind : TokenKind} {g : Glyph} {more after : List Glyph}
    (h : Formed kind (g :: more) after) : kind ≠ .finish := by
  rintro rfl
  cases h with
  | quoted hkind | number hkind => rcases hkind with hkind | hkind <;> cases hkind

theorem rest_of_finish {after : List Token} {t : Token} (ht : t.kind = .finish)
    (index line : Nat) (gap glyphs : List Glyph) : ∀ before,
      readFrom index line gap glyphs = before ++ t :: after → after = [] := by
  fun_induction readFrom index line gap glyphs with
  | case1 index line gap =>
    intro before h
    cases before with
    | nil => exact (List.cons.inj h).2.symm
    | cons u before => simp at h
  | case2 index line gap g rest n hn piece ih => exact ih
  | case3 index line gap g rest hn kind n hkind first ih =>
    intro before h
    cases before with
    | nil =>
      obtain ⟨rfl, -⟩ := List.cons.inj h
      exact absurd ht (formed_kindAndRest hkind).ne_finish
    | cons u before => exact ih before (List.cons.inj h).2

end Token

theorem fileTokens_topLevel {depth : Nat} {ts rest : List Token} {o : Option Item}
    {items : List Item} (h : Takes (topLevel (rules depth)) ts o rest)
    (hrest : FileTokens depth rest items) : FileTokens depth ts (o.toList ++ items) := by
  cases o with
  | none =>
    obtain ⟨us, rfl, -⟩ := Balances.taken (f := .body) h
    by_cases hus : us = []
    · rw [hus]
      exact hrest
    · exact .other hus h hrest
  | some item =>
    rcases takes_orElse h with hstatement | hloose
    · obtain ⟨us, rfl, hus⟩ := (outlined_rules depth).statement _ _ _ hstatement
      exact .item (hus item rfl) ⟨item, h⟩ hrest
    · obtain ⟨_, mid, -, hpure⟩ := takes_bind.mp hloose
      exact absurd (takes_pure.mp hpure).1 (Option.some_ne_none item)

theorem fileTokens_of_repeats {depth : Nat} {ts rest : List Token} {all : List (Option Item)}
    (h : Repeats (topLevel (rules depth)) ts all rest) (hrest : FileTokens depth rest []) :
    FileTokens depth ts (all.filterMap id) := by
  induction h with
  | stop ts => exact hrest
  | @next ts mid rest o more hfirst _ ih =>
    have heq : (o :: more).filterMap id = o.toList ++ more.filterMap id := by cases o <;> rfl
    rw [heq]
    exact fileTokens_topLevel hfirst (ih hrest)

/-- The items of a file are those of its outline. -/
theorem outlines_of_parseItems {glyphs : List Glyph} {items : List Item}
    (h : parseItems (Token.read glyphs) = .ok items) : Outlines (Token.read glyphs) items := by
  unfold parseItems at h
  split at h
  · rename_i hrule
    obtain rfl := Except.ok.inj h
    obtain ⟨all, mid, hall, hfinish⟩ := takes_bind.mp ⟨_, hrule⟩
    obtain ⟨t, late, hlast, hpure⟩ := takes_bind.mp hfinish
    obtain ⟨rfl, rfl⟩ := takes_pure.mp hpure
    obtain ⟨rfl, ht⟩ := takes_tokenWhere hlast
    obtain ⟨before, hbefore⟩ := Advances.suffix hall
    have ht : t.kind = .finish := of_decide_eq_true ht
    obtain rfl := Token.rest_of_finish ht 0 1 [] glyphs before hbefore.symm
    exact fileTokens_of_repeats (repeats_of_many hall) (.finish ht)
  · cases h

end LookupGen.Java
