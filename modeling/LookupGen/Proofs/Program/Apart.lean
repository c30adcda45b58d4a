import LookupGen.Proofs.Program.Confined

/-!
# Names that lead elsewhere

A program finds a type by a name that ends in a segment as it stands in the file: in the last one of
the name of an owner or an import, or in the first one if that alone is resolved. A part of a file
in which these segments are none of some words looks for no type whose simple name is one of them.
-/

namespace LookupGen

open Java (NameSpec)

variable {S : Name → Prop}

/-- Names, as a source file has them, that lead to no type whose simple name is one of some words.
-/
def Java.NameSpec.apart (S : Name → Prop) : Java.NameSpec where
  field n := n.IsWord
  owner n := ¬ S n.head ∧ (S n.simple → n.package.Dangling)
  type n := ¬ S n.head
  declared n := n.IsWord
  path n := n.WordEnded ∧ ¬ S n.simple ∧ (n.simple.IsWord → ¬ S n.package.simple)

def Qualify (S names : Name → Prop) : Prop :=
  ∀ n, names n → S n.simple ∧ (CodePoint.ofChar '.' ∈ n → n.package.WordEnded)

structure TypeScope.Named (s : TypeScope) : Prop where
  word : s.simpleName.IsWord
  simple : s.qualifiedName.simple = s.simpleName
  package : CodePoint.ofChar '.' ∈ s.qualifiedName → s.qualifiedName.package.WordEnded

/-- A file whose imports lead to no type whose simple name is one of some words. -/
structure FileScope.Apart (S : Name → Prop) (f : FileScope) : Prop where
  package : f.package = [] ∨ f.package.WordEnded
  singleImports : ∀ e ∈ f.singleImports, e.2.simple = e.1
  staticImports : ∀ e ∈ f.staticImports, e.1.IsWord → ¬ S e.2.simple
  staticOnDemandImports : ∀ n ∈ f.staticOnDemandImports, ¬ S n.simple
  topLevel : ∀ e ∈ f.topLevel, e.2.simple = e.1

structure DeclaredType.Apart (S : Name → Prop) (t : DeclaredType) : Prop where
  scopes : ∀ s ∈ t.scope :: t.enclosing, s.Named
  types : ∀ f ∈ t.scope.fields, ∀ u, f.type = some u → u.Meets (.apart S)
  initializers : ∀ f ∈ t.scope.fields, ∀ e, f.initializer = some e → e.Meets (.apart S)
  annotations : ∀ f ∈ t.scope.fields, f.modifiers.Meets (.apart S)
  modifiers : t.modifiers.Meets (.apart S)
  methods : ∀ m ∈ t.methods, m.modifiers.Meets (.apart S)

theorem mem_of_lookupLast {n t : Name} {pairs : List (Name × Name)}
    (h : FileScope.lookupLast n pairs = some t) : (n, t) ∈ pairs := by
  unfold FileScope.lookupLast at h
  obtain ⟨before, after, heq, -⟩ := List.lookup_eq_some_iff.mp h
  apply List.mem_reverse.mp
  rw [heq]
  exact List.mem_append_right _ List.mem_cons_self

section Resolved

variable {n t : Name}

theorem simple_of_typeInScopes {scopes : List TypeScope} (hscopes : ∀ s ∈ scopes, s.Named)
    (hn : CodePoint.ofChar '.' ∉ n) (h : typeInScopes n scopes = some t) : t.simple = n := by
  induction scopes with
  | nil => cases h
  | cons s outer ih =>
    rw [typeInScopes] at h
    split at h
    · rename_i hname
      obtain rfl := Option.some.inj h
      rw [(hscopes s List.mem_cons_self).simple, hname]
    · split at h
      · obtain rfl := Option.some.inj h
        rw [Name.simple_join, Name.simple_of_not_mem hn]
      · exact ih (fun u hu => hscopes u (List.mem_cons_of_mem s hu)) h

namespace Program

variable {p : Program} {file : FileScope} {site : Site}

theorem simple_of_typeInFile (hfile : file.Apart S) (h : typeInFile file n = some t) :
    t.simple = n := by
  unfold typeInFile at h
  split at h
  · rename_i himported
    obtain rfl := Option.some.inj h
    exact hfile.singleImports _ (mem_of_lookupLast himported)
  · exact hfile.topLevel _ (mem_of_lookupLast h)

theorem simple_of_mem_around {k : Name} (h : k ∈ file.around n) : k.simple = n.simple := by
  rcases List.mem_cons.mp h with rfl | h
  · exact Name.simple_within _ _
  · obtain ⟨package, -, rfl⟩ := List.mem_map.mp h
    exact Name.simple_join _ _

theorem not_names_of_mem_around {names : Name → Prop} (hnames : Qualify S names)
    (hhead : ¬ S n.head) : ∀ k ∈ file.around n.head, ¬ names k := by
  intro k hk hnamed
  apply hhead
  rw [← Name.simple_of_not_mem n.dot_not_mem_head, ← simple_of_mem_around hk]
  exact (hnames k hnamed).1

theorem simple_of_typeAround (h : p.typeAround file n = some t) : t.simple = n.simple := by
  unfold typeAround at h
  simp only at h
  split at h
  · obtain rfl := Option.some.inj h
    exact Name.simple_within _ _
  · split at h
    · rename_i hfound
      obtain rfl := Option.some.inj h
      exact simple_of_mem_around (List.mem_cons_of_mem _ (List.mem_of_find?_eq_some hfound))
    · split at h
      · obtain rfl := Option.some.inj h
        exact Name.simple_join _ _
      · cases h

variable (hfile : site.file.Apart S) (hscopes : ∀ s ∈ site.scopes, s.Named)

include hfile hscopes

theorem simple_of_simpleType? (hn : CodePoint.ofChar '.' ∉ n) (h : p.simpleType? site n = some t) :
    t.simple = n := by
  unfold simpleType? at h
  split at h
  · rename_i hfound
    obtain rfl := Option.some.inj h
    exact simple_of_typeInScopes hscopes hn hfound
  · split at h
    · rename_i hfound
      obtain rfl := Option.some.inj h
      exact simple_of_typeInFile hfile hfound
    · rw [simple_of_typeAround h, Name.simple_of_not_mem hn]

/-- A name is resolved by its first segment alone, or it stands at the end of what it comes to. -/
theorem resolveType_cases (n : Name) :
    (p.resolveType site n).simple = n.head ∨
      CodePoint.ofChar '.' ∈ n ∧ (p.resolveType site n = n ∨
        ∃ before, p.resolveType site n = before ++ CodePoint.ofChar '.' :: n) := by
  have hsimple {m : Name} (hm : CodePoint.ofChar '.' ∉ m) :
      ((p.simpleType? site m).getD (Name.within site.file.package m)).simple = m := by
    cases hfound : p.simpleType? site m with
    | none => exact (Name.simple_within _ m).trans (Name.simple_of_not_mem hm)
    | some t => exact simple_of_simpleType? hfile hscopes hm hfound
  unfold resolveType Name.head
  cases hsplit : Text.splitFirst '.' n with
  | none => exact .inl (hsimple (Text.splitFirst_eq_none hsplit))
  | some parts =>
    obtain ⟨head, rest⟩ := parts
    obtain ⟨rfl, hhead⟩ := Text.splitFirst_eq_some hsplit
    simp only
    split
    · exact .inl (hsimple hhead)
    · refine .inr ⟨List.mem_append_right _ List.mem_cons_self, ?_⟩
      cases hfound : p.simpleType? site head with
      | none => exact .inl rfl
      | some t =>
        have ht := simple_of_simpleType? hfile hscopes hhead hfound
        simp only [Name.join_dot]
        by_cases hdot : CodePoint.ofChar '.' ∈ t
        · rw [Name.package_simple hdot, ht]
          exact .inr ⟨t.package, by simp⟩
        · rw [← Name.simple_of_not_mem hdot, ht]
          exact .inl rfl

variable {names : Name → Prop} (hnames : Qualify S names)

include hnames in
theorem apart_le_asks (p : Program) : (NameSpec.apart S).Le (p.asks (fun n => ¬ names n) site) where
  field := by
    intro n hn k hk hnamed
    rcases List.mem_append.mp hk with hk | hk
    · have howner := mem_of_lookupLast (Option.mem_toList.mp hk)
      exact hfile.staticImports _ howner hn (hnames k hnamed).1
    · exact hfile.staticOnDemandImports k hk (hnames k hnamed).1
  owner := by
    rintro n ⟨hhead, hdangling⟩
    refine ⟨not_names_of_mem_around hnames hhead, ?_⟩
    · intro hnamed
      obtain ⟨hsimple, hended⟩ := hnames _ hnamed
      rcases resolveType_cases (p := p) hfile hscopes n with heq | ⟨hdot, heq | ⟨before, heq⟩⟩
      · rw [heq] at hsimple
        exact hhead hsimple
      · rw [heq] at hsimple hended
        exact (hdangling hsimple).not_wordEnded (a := []) (fun c hc => by cases hc) (hended hdot)
      · rw [heq, Name.simple_append] at hsimple
        have hin : CodePoint.ofChar '.' ∈ p.resolveType site n := by
          rw [heq]
          exact List.mem_append_right _ List.mem_cons_self
        have hended := hended hin
        rw [heq, Name.package_append_of_mem before hdot, List.append_cons] at hended
        refine (hdangling hsimple).not_wordEnded ?_ hended
        intro c hc
        rw [List.getLast?_concat] at hc
        exact (Option.some.inj hc).symm
  type := fun n hhead => not_names_of_mem_around hnames hhead
  declared := fun _ _ => trivial
  path := fun _ _ => trivial

end Program

end Resolved

def Java.TypeDeclaration.simpleName : Java.TypeDeclaration → Name
  | .mk _ _ name _ _ => name

theorem TypeScope.Named.wordEnded {s : TypeScope} (h : s.Named) : s.qualifiedName.WordEnded := by
  have hword : s.qualifiedName.simple.IsWord := h.simple ▸ h.word
  by_cases hdot : CodePoint.ofChar '.' ∈ s.qualifiedName
  · rw [Name.package_simple hdot]
    exact Name.wordEnded_append_dot _ hword
  · rw [← Name.simple_of_not_mem hdot]
    exact hword.wordEnded

namespace DeclaredType

theorem mem_putField {f g : FieldDecl} {fs : List FieldDecl} (h : g ∈ putField f fs) :
    g = f ∨ g ∈ fs := by
  induction fs with
  | nil => exact .inl (List.mem_singleton.mp h)
  | cons first rest ih =>
    rw [putField] at h
    split at h
    · exact (List.mem_cons.mp h).imp_right (List.mem_cons_of_mem first)
    · rcases List.mem_cons.mp h with rfl | h
      · exact .inr List.mem_cons_self
      · exact (ih h).imp_right (List.mem_cons_of_mem first)

/-- Each field of a type is one that a member declares, and is final where the kind of the type
makes it so. -/
theorem mem_memberFields_of_mem_fieldsOf {kind : TypeKind} {members : List Java.Member}
    {f : FieldDecl} (h : f ∈ fieldsOf kind members) :
    ∃ m ∈ members, f ∈ memberFields (decide (kind = .interface ∨ kind = .annotationType)) m := by
  simp only [fieldsOf] at h
  have hadded : ∀ (added fs : List FieldDecl),
      f ∈ added.foldl (fun fields f => putField f fields) fs →
      f ∈ added ∨ f ∈ fs := by
    intro added
    induction added with
    | nil => exact fun fs h => .inr h
    | cons g rest ih =>
      intro fs h
      rcases ih _ h with h | h
      · exact .inl (List.mem_cons_of_mem g h)
      · rcases mem_putField h with rfl | h
        · exact .inl List.mem_cons_self
        · exact .inr h
  rcases hadded _ _ h with h | h
  · exact List.mem_flatMap.mp h
  · cases h

theorem mem_fieldsOf {kind : TypeKind} {members : List Java.Member} {f : FieldDecl}
    (h : f ∈ fieldsOf kind members) : ∃ final, ∃ m ∈ members, f ∈ memberFields final m :=
  ⟨_, mem_memberFields_of_mem_fieldsOf h⟩

theorem meets_of_mem_memberFields {N : NameSpec} {final : Bool} {m : Java.Member}
    (hm : m.Meets N) {f : FieldDecl} (hf : f ∈ memberFields final m) :
    (∀ u, f.type = some u → u.Meets N) ∧ (∀ e, f.initializer = some e → e.Meets N) ∧
      f.modifiers.Meets N := by
  cases m with
  | fields modifiers type ds =>
    obtain ⟨d, hd, rfl⟩ := List.mem_map.mp hf
    unfold Java.Member.Meets at hm
    obtain ⟨hmodifiers, htype, hds⟩ := hm
    refine ⟨?_, hds d hd, hmodifiers⟩
    intro u hu
    obtain rfl := Option.some.inj hu
    exact htype
  | constant modifiers name line =>
    obtain rfl := List.mem_singleton.mp hf
    unfold Java.Member.Meets at hm
    exact ⟨nofun, nofun, hm⟩
  | method kind modifiers name line => cases hf
  | type d => cases hf

theorem meets_of_mem_methodsOf {N : NameSpec} {members : List Java.Member}
    (hmembers : ∀ m ∈ members, m.Meets N) {m : MethodDecl} (hm : m ∈ methodsOf members) :
    m.modifiers.Meets N := by
  obtain ⟨member, hmember, heq⟩ := List.mem_filterMap.mp hm
  have hmeets := hmembers member hmember
  cases member with
  | method kind modifiers name line =>
    obtain rfl := Option.some.inj heq
    unfold Java.Member.Meets at hmeets
    exact hmeets
  | fields | constant | type => cases heq

/-- By induction on the declaration: the types inside a type are named after it. -/
theorem apart_of_mem_ofDeclaration (file : FileScope) (around : List TypeScope) (id : Nat)
    (name : Name) (d : Java.TypeDeclaration) (hd : d.Meets (.apart S))
    (haround : ∀ s ∈ around, s.Named) (hsimple : name.simple = d.simpleName)
    (hpackage : CodePoint.ofChar '.' ∈ name → name.package.WordEnded) :
    ∀ t ∈ ofDeclaration file around id name d, t.Apart S := by
  refine DeclaredType.ofDeclaration.induct file
    (fun around id name d => d.Meets (.apart S) → (∀ s ∈ around, s.Named) →
      name.simple = d.simpleName → (CodePoint.ofChar '.' ∈ name → name.package.WordEnded) →
      ∀ t ∈ ofDeclaration file around id name d, t.Apart S)
    (fun around id outer ms => (∀ m ∈ ms, m.Meets (.apart S)) → (∀ s ∈ around, s.Named) →
      outer.WordEnded → ∀ t ∈ ofMembers file around id outer ms, t.Apart S)
    (fun around id outer m => m.Meets (.apart S) → (∀ s ∈ around, s.Named) →
      outer.WordEnded → ∀ t ∈ ofMember file around id outer m, t.Apart S)
    ?_ ?_ ?_ ?_ ?_ around id name d hd haround hsimple hpackage
  · intro around id outer kind m name line members ih hm haround houter
    rw [ofMember]
    unfold Java.Member.Meets at hm
    have hword : name.IsWord := by
      unfold Java.TypeDeclaration.Meets at hm
      exact hm.2.1
    apply ih hm haround
    · rw [Name.simple_join, Name.simple_of_not_mem hword.dot_not_mem]
      rfl
    · intro _
      rw [Name.join_dot, Name.package_append outer hword.dot_not_mem]
      exact houter
  · intro m around id outer hm _ _ _ t ht
    unfold ofMember at ht
    split at ht
    · exact (hm _ _ _ _ _ rfl).elim
    · cases ht
  · intro around id name kind m simple line members scope ih hd haround hsimple hpackage
    unfold Java.TypeDeclaration.Meets at hd
    obtain ⟨hmodifiers, hword, hmembers⟩ := hd
    have hmembers := Java.Member.allMeet_iff.mp hmembers
    have hscope : scope.Named := ⟨hword, hsimple, hpackage⟩
    have hscopes : ∀ s ∈ scope :: around, s.Named := List.forall_mem_cons.mpr ⟨hscope, haround⟩
    rw [ofDeclaration]
    intro t ht
    rcases List.mem_cons.mp ht with rfl | ht
    · have hfields : ∀ f ∈ scope.fields, ∃ final, ∃ m ∈ members, f ∈ memberFields final m :=
        fun f hf => mem_fieldsOf hf
      refine ⟨hscopes, ?_, ?_, ?_, hmodifiers, fun m hm => meets_of_mem_methodsOf hmembers hm⟩
      all_goals
        intro f hf
        obtain ⟨final, m, hm, hf⟩ := hfields f hf
        obtain ⟨htype, hinitializer, hannotations⟩ := meets_of_mem_memberFields (hmembers m hm) hf
      · exact htype
      · exact hinitializer
      · exact hannotations
    · exact ih hmembers hscopes hscope.wordEnded t ht
  · intro around id outer _ _ _ t ht
    simp only [ofMembers] at ht
    cases ht
  · intro around id outer member rest own ihMember ihRest hms haround houter t ht
    rw [ofMembers] at ht
    rcases List.mem_append.mp ht with ht | ht
    · exact ihMember (hms member List.mem_cons_self) haround houter t ht
    · exact ihRest (fun m hm => hms m (List.mem_cons_of_mem member hm)) haround houter t ht

/-- A type looks for none of the names that its own names do not lead to. -/
theorem Apart.confined {t : DeclaredType} (ht : t.Apart S) (hfile : t.file.Apart S)
    {names : Name → Prop} (hnames : Qualify S names) (p : Program) :
    p.ConfinedType (fun n => ¬ names n) t := by
  have hinside : (NameSpec.apart S).Le (p.asks (fun n => ¬ names n) t.site) :=
    Program.apart_le_asks hfile ht.scopes hnames p
  have houtside : (NameSpec.apart S).Le (p.asks (fun n => ¬ names n) t.outerSite) :=
    Program.apart_le_asks hfile (fun s hs => ht.scopes s (List.mem_cons_of_mem _ hs)) hnames p
  refine ⟨?_, Java.Modifiers.Meets.imp houtside ht.modifiers,
    fun m hm => Java.Modifiers.Meets.imp hinside (ht.methods m hm)⟩
  intro f hf
  obtain ⟨d, hd, rfl⟩ := List.mem_map.mp hf
  exact ⟨fun u hu => Java.TypeUse.Meets.imp hinside (ht.types d hd u hu),
    fun e he => Java.Expr.Meets.imp hinside (ht.initializers d hd e he),
    Java.Modifiers.Meets.imp hinside (ht.annotations d hd)⟩

end DeclaredType

theorem Program.apart_of_mem_fileTypes (file : FileScope) (id : Nat)
    (types : List (Name × Java.TypeDeclaration))
    (h : ∀ e ∈ types, e.2.Meets (.apart S) ∧ e.1.simple = e.2.simpleName ∧
      (CodePoint.ofChar '.' ∈ e.1 → e.1.package.WordEnded)) :
    ∀ t ∈ fileTypes file id types, t.Apart S := by
  induction types generalizing id with
  | nil => exact fun t ht => absurd ht List.not_mem_nil
  | cons entry rest ih =>
    obtain ⟨⟨hmeets, hsimple, hpackage⟩, hrest⟩ := List.forall_mem_cons.mp h
    obtain ⟨qualified, d⟩ := entry
    intro t ht
    rw [fileTypes] at ht
    rcases List.mem_append.mp ht with ht | ht
    · exact DeclaredType.apart_of_mem_ofDeclaration file [] id qualified d hmeets
        (fun s hs => absurd hs List.not_mem_nil) hsimple hpackage t ht
    · exact ih _ hrest t ht

end LookupGen
