import LookupGen.Proofs.Java.Unambiguous
import LookupGen.Proofs.Program.Placed

/-!
# Types in an outline

Each declared type has tokens of its own in its file, and the tokens of a file leave no choice which
types it declares and where.

This module does NOT say that the grammar follows the outline.
-/

namespace LookupGen

open Java

namespace Placed

variable {path : Text} {package : Name} {around : List Name}

def declaration (t : Placed) : TypeDeclaration := .mk t.kind t.modifiers t.name t.line t.members

def HasTokens (ts : List Token) (t : Placed) : Prop :=
  ∃ us, us <:+: ts ∧ TypeTokens us t.declaration

/-- By induction on the declaration: the tokens of a type have those of the types inside it. -/
theorem tokens_ofDeclaration {d : TypeDeclaration} {ts : List Token}
    (hd : ∃ us, us <:+: ts ∧ TypeTokens us d) :
    ∀ t ∈ ofDeclaration path package around d, t.HasTokens ts := by
  refine ofDeclaration.induct
    (fun around d => (∃ us, us <:+: ts ∧ TypeTokens us d) →
      ∀ t ∈ ofDeclaration path package around d, t.HasTokens ts)
    (fun around ms => (∀ m ∈ ms, m.Among ts) →
      ∀ t ∈ ofMembers path package around ms, t.HasTokens ts)
    (fun around member => member.Among ts →
      ∀ t ∈ ofMember path package around member, t.HasTokens ts)
    ?_ ?_ ?_ ?_ ?_ around d hd
  · intro around kind m name line members ih hamong t ht
    rw [ofMember] at ht
    exact ih hamong t ht
  · intro member around hnot _ t ht
    rw [ofMember_of_not_type fun d hd => by cases d; exact hnot _ _ _ _ _ hd] at ht
    cases ht
  · intro around kind m name line members ih hd t ht
    rw [ofDeclaration] at ht
    rcases List.mem_cons.mp ht with rfl | ht
    · exact hd
    · obtain ⟨us, hus, htype⟩ := hd
      exact ih (fun member hmember => (htype.among member hmember).mono hus) t ht
  · intro around _ t ht
    rw [ofMembers] at ht
    cases ht
  · intro around member rest ihMember ihRest hamong t ht
    obtain ⟨hmember, hrest⟩ := List.forall_mem_cons.mp hamong
    rw [ofMembers] at ht
    rcases List.mem_append.mp ht with ht | ht
    · exact ihMember hmember t ht
    · exact ihRest hrest t ht

theorem tokens_ofItems {items : List Item} {ts : List Token}
    (h : ∀ d, .type d ∈ items → ∃ us, us <:+: ts ∧ TypeTokens us d) :
    ∀ t ∈ ofItems path package items, t.HasTokens ts := by
  induction items generalizing package with
  | nil =>
    intro t ht
    rw [ofItems] at ht
    cases ht
  | cons item rest ih =>
    intro t ht
    have hrest := fun d hd => h d (List.mem_cons_of_mem item hd)
    cases item with
    | package name => exact ih hrest t ht
    | «import» form name => exact ih hrest t ht
    | type d =>
      rw [ofItems] at ht
      rcases List.mem_append.mp ht with ht | ht
      · exact tokens_ofDeclaration (h d List.mem_cons_self) t ht
      · exact ih hrest t ht

theorem kind_of_mem_methods {t : Placed} {us : List Token} (h : TypeTokens us t.declaration)
    {m : MethodDecl} (hm : m ∈ t.methods) : m.kind = .method ∨ m.kind = .constructor := by
  obtain ⟨member, hmember, heq⟩ := List.mem_filterMap.mp hm
  have hamong := h.among member hmember
  cases member with
  | method sort m name line =>
    obtain rfl := Option.some.inj heq
    exact hamong
  | fields m type ds => cases heq
  | constant m name line => cases heq
  | type d => cases heq

def place (t : Placed) : Name × List Name × TypeKind × Name × Nat :=
  (t.package, t.around, t.kind, t.name, t.line)

theorem ofMembers_append (ms ms' : List Member) :
    ofMembers path package around (ms ++ ms') =
      ofMembers path package around ms ++ ofMembers path package around ms' := by
  induction ms with
  | nil =>
    rw [ofMembers]
    rfl
  | cons m ms ih => rw [List.cons_append, ofMembers, ofMembers, ih, List.append_assoc]

theorem ofMembers_of_no_type {ms : List Member} (h : ∀ d, .type d ∉ ms) :
    ofMembers path package around ms = [] := by
  induction ms with
  | nil => rw [ofMembers]
  | cons m ms ih =>
    have hm : ofMember path package around m = [] := by
      apply ofMember_of_not_type
      rintro d rfl
      exact h d List.mem_cons_self
    rw [ofMembers, hm, ih fun d hd => h d (List.mem_cons_of_mem m hd), List.append_nil]

def SameTypes (ms ms' : List Member) : Prop :=
  ∀ path package around, (ofMembers path package around ms).map place =
    (ofMembers path package around ms').map place

namespace SameTypes

variable {ms ms' more more' : List Member}

theorem append (h : SameTypes ms ms') (hmore : SameTypes more more') :
    SameTypes (ms ++ more) (ms' ++ more') := by
  intro path package around
  rw [ofMembers_append, ofMembers_append, List.map_append, List.map_append, h, hmore]

theorem of_no_type (h : ∀ d, .type d ∉ ms) (h' : ∀ d, .type d ∉ ms') : SameTypes ms ms' := by
  intro path package around
  rw [ofMembers_of_no_type h, ofMembers_of_no_type h']

theorem type (h : SameTypes ms ms') (kind : TypeKind) (m m' : Modifiers) (name : Name)
    (line : Nat) :
    SameTypes [.type (.mk kind m name line ms)] [.type (.mk kind m' name line ms')] := by
  intro path package around
  simp only [ofMembers, ofMember, ofDeclaration, List.append_nil, List.map_cons]
  rw [h]
  rfl

end SameTypes

theorem sameTypes_of_rest {first first' rest rest' : List Token} {ms ms' : List Member}
    (hfirst : Balanced .expression first) (hfirst' : Balanced .expression first')
    (hrest : RestTokens rest ms) (hrest' : RestTokens rest' ms')
    (heq : first ++ rest = first' ++ rest')
    (ih : ∀ ts : List Token, ts.length < (first ++ rest).length → ∀ ms ms',
      BodyTokens .general ts ms → BodyTokens .general ts ms' → SameTypes ms ms') :
    SameTypes ms ms' := by
  have hno {a b ts : List Token} {t : Token} (ha : Balanced .expression a)
      (hb : Balanced .expression b) (ht : t.kind = .sign ";") (heq : a = b ++ t :: ts) : False := by
    have hlonger : a ++ t :: [] = b ++ t :: (ts ++ [t]) := by simp [heq]
    have hsame := (ha.unique hb (stops_semicolon ht) (stops_semicolon ht) hlonger).2
    exact absurd (List.cons.inj hsame).2.symm (by simp)
  cases hrest with
  | none =>
    rw [List.append_nil] at heq
    cases hrest' with
    | none => exact fun _ _ _ => rfl
    | some ht' => exact (hno hfirst hfirst' ht' heq).elim
  | @some t ts _ ht h =>
    cases hrest' with
    | none =>
      rw [List.append_nil] at heq
      exact (hno hfirst' hfirst ht heq.symm).elim
    | some ht' h' =>
      obtain ⟨-, hbody⟩ := hfirst.unique hfirst' (stops_semicolon ht) (stops_semicolon ht') heq
      obtain ⟨-, rfl⟩ := List.cons.inj hbody
      refine ih ts ?_ _ _ h h'
      simp only [List.length_append, List.length_cons]
      omega

theorem sameTypes_of_inner {kind : TypeKind} {inner : List Token} {ms ms' : List Member}
    (h : InnerTokens kind inner ms) (h' : InnerTokens kind inner ms')
    (ih : ∀ ts : List Token, ts.length ≤ inner.length → ∀ kind ms ms',
      BodyTokens kind ts ms → BodyTokens kind ts ms' → SameTypes ms ms') : SameTypes ms ms' := by
  have hno {constants : List Member} (h : ∀ m ∈ constants, ∃ us, ConstantTokens us m) :
      ∀ d, .type d ∉ constants := by
    intro d hd
    obtain ⟨us, hconstant⟩ := h _ hd
    cases hconstant
  cases h with
  | body hkind h =>
    cases h' with
    | body _ h' => exact ih _ (Nat.le_refl _) _ _ _ h h'
    | enumeration hkind' => exact absurd hkind' hkind
  | @enumeration first rest constants members hkind hfirst hconstants hrest =>
    generalize heq : first ++ rest = inner at h'
    cases h' with
    | body hkind' => exact absurd hkind hkind'
    | enumeration _ hfirst' hconstants' hrest' =>
      refine (SameTypes.of_no_type (hno hconstants) (hno hconstants')).append ?_
      refine sameTypes_of_rest hfirst hfirst' hrest hrest' heq fun ts hts ms ms' => ?_
      exact ih ts (Nat.le_of_lt hts) .general ms ms'

theorem sameTypes_of_body {kind : BodyKind} {ts : List Token} {ms ms' : List Member}
    (h : BodyTokens kind ts ms) (h' : BodyTokens kind ts ms') : SameTypes ms ms' := by
  -- By induction on the number of tokens: however a body is read, it declares the same types.
  induction hlength : ts.length using Nat.strong_induction_on generalizing kind ts ms ms' with
  | _ n ih =>
    subst hlength
    rcases h.split with ⟨rfl, rfl⟩ | ⟨us, rest, own, more, rfl, rfl, hpiece, hrest⟩
    · rcases h'.split with ⟨-, rfl⟩ | ⟨us', rest', own', more', heq, rfl, hpiece', -⟩
      · exact fun _ _ _ => rfl
      · exact absurd (List.append_eq_nil_iff.mp heq.symm).1 hpiece'.ne_nil
    · rcases h'.split with ⟨heq, rfl⟩ | ⟨us', rest', own', more', heq, rfl, hpiece', hrest'⟩
      · exact absurd (List.append_eq_nil_iff.mp heq).1 hpiece.ne_nil
      · obtain ⟨rfl, rfl, hown⟩ := hpiece.unique hpiece' heq
        have hus : 0 < us.length := List.length_pos_iff.mpr hpiece.ne_nil
        have hmore : SameTypes more more' := by
          refine ih rest.length ?_ hrest hrest' rfl
          rw [List.length_append]
          omega
        refine SameTypes.append ?_ hmore
        rcases hown with ⟨hown, hown'⟩ | ⟨d, d', hd, hd', rfl, rfl⟩
        · exact .of_no_type hown hown'
        · obtain ⟨kind, m, name, line, members⟩ := d
          obtain ⟨kind', m', name', line', members'⟩ := d'
          obtain ⟨-, -, rfl, rfl, rfl, inner, hinner, hmembers, hmembers'⟩ :=
            hd.unique hd' (rfl : us ++ rest = us ++ rest)
          refine SameTypes.type ?_ kind m m' name line
          refine sameTypes_of_inner hmembers hmembers' fun ts hts kind ms ms' h h' => ?_
          refine ih ts.length ?_ h h' rfl
          rw [List.length_append]
          omega

theorem places_of_typeTokens {us : List Token} {d d' : TypeDeclaration} (h : TypeTokens us d)
    (h' : TypeTokens us d') : (ofDeclaration path package around d).map place =
      (ofDeclaration path package around d').map place := by
  have hbody {d : TypeDeclaration} (h : TypeTokens us d) :
      BodyTokens .general (us ++ []) [.type d] :=
    .type h (.nil _)
  have hsame := sameTypes_of_body (hbody h) (hbody h') path package around
  cases d
  cases d'
  simpa only [ofMembers, ofMember, List.append_nil] using hsame

theorem ne_nil_of_fileTokens {depth : Nat} {ts : List Token} {items : List Item}
    (h : FileTokens depth ts items) : ts ≠ [] := by
  cases h with
  | finish => exact List.cons_ne_nil _ _
  | item h => exact List.append_ne_nil_of_left_ne_nil h.ne_nil _
  | other hus => exact List.append_ne_nil_of_left_ne_nil hus _

theorem not_append_eq_singleton {depth : Nat} {t : Token} {us ts : List Token} {items : List Item}
    (hus : us ≠ []) (hrest : FileTokens depth ts items) : us ++ ts ≠ [t] := by
  intro heq
  have hlength := congrArg List.length heq
  have hts := List.length_pos_iff.mpr (ne_nil_of_fileTokens hrest)
  have hpositive := List.length_pos_iff.mpr hus
  rw [List.length_append, List.length_singleton] at hlength
  omega

theorem places_of_fileTokens {depth : Nat} {ts : List Token} {items items' : List Item}
    (h : FileTokens depth ts items) (h' : FileTokens depth ts items') :
    (ofItems path package items).map place = (ofItems path package items').map place := by
  induction h generalizing package items' with
  | @finish t ht =>
    generalize hts : [t] = ts at h'
    cases h' with
    | finish => rfl
    | item hitem _ hrest => exact absurd hts.symm (not_append_eq_singleton hitem.ne_nil hrest)
    | other hus _ hrest => exact absurd hts.symm (not_append_eq_singleton hus hrest)
  | @item us ts item items hitem htaken hrest ih =>
    obtain ⟨o, htaken⟩ := htaken
    generalize hts : us ++ ts = all at h'
    cases h' with
    | finish => exact absurd hts (not_append_eq_singleton hitem.ne_nil hrest)
    | @item us' ts' item' items' hitem' htaken' hrest' =>
      obtain ⟨o', htaken'⟩ := htaken'
      rw [hts] at htaken
      obtain ⟨-, rfl⟩ := htaken.unique htaken'
      obtain rfl := List.append_cancel_right hts
      cases hitem.same hitem' with
      | package name =>
        rw [ofItems, ofItems]
        exact ih hrest'
      | «import» form form' name name' =>
        rw [ofItems, ofItems]
        exact ih hrest'
      | type h h' =>
        rw [ofItems, ofItems, List.map_append, List.map_append,
          places_of_typeTokens h h', ih hrest']
    | @other us' ts' items' _ htaken' =>
      rw [hts] at htaken
      cases (htaken.unique htaken').1
  | @other us ts items hus htaken hrest ih =>
    generalize hts : us ++ ts = all at h'
    cases h' with
    | finish => exact absurd hts (not_append_eq_singleton hus hrest)
    | @item us' ts' item' items' _ htaken' =>
      obtain ⟨o', htaken'⟩ := htaken'
      rw [hts] at htaken
      cases (htaken.unique htaken').1
    | @other us' ts' items' _ htaken' hrest' =>
      rw [hts] at htaken
      obtain ⟨-, rfl⟩ := htaken.unique htaken'
      exact ih hrest'

end Placed

end LookupGen
