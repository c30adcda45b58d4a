import LookupGen.Program.Evaluate
import Mathlib.Data.List.Nodup
import Mathlib.Data.List.Range

/-!
# Fields of a program

The programs that come from reading files, and what holds of all of them: the bodies of types are
numbered in their order, the scopes around a type are those of types of the program, and each type
has one field of a name. So the key of a field tells it apart, and a name leads to a field of the
program wherever it stands.
-/

namespace LookupGen

namespace DeclaredType

theorem putField_names_of_mem {f : FieldDecl} {fs : List FieldDecl}
    (h : f.name ∈ fs.map (·.name)) : (putField f fs).map (·.name) = fs.map (·.name) := by
  induction fs with
  | nil => cases h
  | cons g rest ih =>
    by_cases hg : g.name = f.name
    · simp [putField, hg]
    · have hrest := (List.mem_cons.mp h).resolve_left (Ne.symm hg)
      simp [putField, hg, ih hrest]

theorem putField_names_of_not_mem {f : FieldDecl} {fs : List FieldDecl}
    (h : f.name ∉ fs.map (·.name)) :
    (putField f fs).map (·.name) = fs.map (·.name) ++ [f.name] := by
  induction fs with
  | nil => rfl
  | cons g rest ih =>
    obtain ⟨hg, hrest⟩ := not_or.mp (mt List.mem_cons.mpr h)
    simp [putField, Ne.symm hg, ih hrest]

theorem putField_nodup (f : FieldDecl) {fs : List FieldDecl} (h : (fs.map (·.name)).Nodup) :
    ((putField f fs).map (·.name)).Nodup := by
  by_cases hf : f.name ∈ fs.map (·.name)
  · rw [putField_names_of_mem hf]
    exact h
  · rw [putField_names_of_not_mem hf]
    apply List.nodup_append.mpr ⟨h, List.nodup_singleton _, _⟩
    intro a ha b hb hab
    rw [List.mem_singleton.mp hb] at hab
    exact hf (hab ▸ ha)

theorem fieldsOf_nodup (kind : TypeKind) (members : List Java.Member) :
    ((fieldsOf kind members).map (·.name)).Nodup := by
  simp only [fieldsOf]
  generalize members.flatMap _ = added
  have grow : ∀ fs : List FieldDecl, (fs.map (·.name)).Nodup →
      ((added.foldl (fun fields f => putField f fields) fs).map (·.name)).Nodup := by
    induction added with
    | nil => exact fun _ h => h
    | cons f rest ih => exact fun fs h => ih _ (putField_nodup f h)
  exact grow [] List.nodup_nil

end DeclaredType

/-- How the types of one file are laid out from a number on, inside given scopes. -/
structure Layout (file : FileScope) (around : List TypeScope) (id : Nat)
    (ts : List DeclaredType) : Prop where
  ids : ts.map (·.scope.id) = List.range' id ts.length
  file_eq : ∀ t ∈ ts, t.file = file
  scopes : ∀ t ∈ ts, ∀ s outer, (s :: outer).IsSuffix t.enclosing →
    (s :: outer).IsSuffix around ∨ ∃ u ∈ ts, u.scope = s ∧ u.enclosing = outer
  names : ∀ t ∈ ts, (t.scope.fields.map (·.name)).Nodup

namespace Layout

variable {file : FileScope} {around : List TypeScope} {id : Nat} {a b : List DeclaredType}

theorem nil : Layout file around id [] := ⟨by simp, by simp, by simp, by simp⟩

theorem append (ha : Layout file around id a) (hb : Layout file around (id + a.length) b) :
    Layout file around id (a ++ b) where
  ids := by
    rw [List.map_append, ha.ids, hb.ids, List.length_append, List.range'_append_1]
  file_eq := by
    intro t ht
    cases List.mem_append.mp ht with
    | inl h => exact ha.file_eq t h
    | inr h => exact hb.file_eq t h
  scopes := by
    intro t ht s outer hs
    cases List.mem_append.mp ht with
    | inl h =>
      rcases ha.scopes t h s outer hs with h | ⟨u, hu, h⟩
      · exact .inl h
      · exact .inr ⟨u, List.mem_append_left b hu, h⟩
    | inr h =>
      rcases hb.scopes t h s outer hs with h | ⟨u, hu, h⟩
      · exact .inl h
      · exact .inr ⟨u, List.mem_append_right a hu, h⟩
  names := by
    intro t ht
    cases List.mem_append.mp ht with
    | inl h => exact ha.names t h
    | inr h => exact hb.names t h

theorem cons {t : DeclaredType} (hid : t.scope.id = id) (hfile : t.file = file)
    (henclosing : t.enclosing = around) (hnames : (t.scope.fields.map (·.name)).Nodup)
    (h : Layout file (t.scope :: around) (id + 1) a) : Layout file around id (t :: a) where
  ids := by rw [List.map_cons, h.ids, hid, List.length_cons, List.range'_succ]
  file_eq := by
    intro u hu
    rcases List.mem_cons.mp hu with rfl | hu
    · exact hfile
    · exact h.file_eq u hu
  scopes := by
    intro u hu s outer hs
    rcases List.mem_cons.mp hu with rfl | hu
    · exact .inl (henclosing ▸ hs)
    · rcases h.scopes u hu s outer hs with hs | ⟨v, hv, hs⟩
      · rcases List.suffix_cons_iff.mp hs with heq | hs
        · obtain ⟨rfl, rfl⟩ := List.cons.inj heq
          exact .inr ⟨t, List.mem_cons_self, rfl, henclosing⟩
        · exact .inl hs
      · exact .inr ⟨v, List.mem_cons_of_mem t hv, hs⟩
  names := by
    intro u hu
    rcases List.mem_cons.mp hu with rfl | hu
    · exact hnames
    · exact h.names u hu

/-- By induction on the declaration: a body lays out its members one after the other. -/
theorem ofDeclaration (file : FileScope) (around : List TypeScope) (id : Nat) (name : Name)
    (d : Java.TypeDeclaration) :
    Layout file around id (DeclaredType.ofDeclaration file around id name d) := by
  refine DeclaredType.ofDeclaration.induct file
    (fun around id name d =>
      Layout file around id (DeclaredType.ofDeclaration file around id name d))
    (fun around id outer ms =>
      Layout file around id (DeclaredType.ofMembers file around id outer ms))
    (fun around id outer m => Layout file around id (DeclaredType.ofMember file around id outer m))
    ?_ ?_ ?_ ?_ ?_ around id name d
  · intro around id outer kind m name line members ih
    simpa only [DeclaredType.ofMember] using ih
  · intro m around id outer hm
    have hnone : DeclaredType.ofMember file around id outer m = [] := by
      unfold DeclaredType.ofMember
      split
      · exact (hm _ _ _ _ _ rfl).elim
      · rfl
    rw [hnone]
    exact nil
  · intro around id name kind m simple line members scope ih
    simp only [DeclaredType.ofDeclaration]
    exact cons rfl rfl rfl (DeclaredType.fieldsOf_nodup kind members) ih
  · intro around id outer
    simpa only [DeclaredType.ofMembers] using nil
  · intro around id outer member rest own ih₁ ih₂
    simp only [DeclaredType.ofMembers]
    exact ih₁.append ih₂

theorem fileTypes (file : FileScope) (id : Nat) (types : List (Name × Java.TypeDeclaration)) :
    Layout file [] id (Program.fileTypes file id types) := by
  induction types generalizing id with
  | nil => exact nil
  | cons entry rest ih => exact (ofDeclaration file [] id entry.1 entry.2).append (ih _)

end Layout

namespace Program

inductive Built : Program → Prop where
  | start (known : List Name) : Built ⟨[], known⟩
  | addFile {p q : Program} {path : Text} {items : List Java.Item} :
      Built p → p.addFile path items = .ok q → Built q

structure WellScoped (p : Program) : Prop where
  ids : p.types.map (·.scope.id) = List.range p.types.length
  scopes : ∀ t ∈ p.types, ∀ s outer, (s :: outer).IsSuffix t.enclosing →
    ∃ u ∈ p.types, u.file = t.file ∧ u.scope = s ∧ u.enclosing = outer
  names : ∀ t ∈ p.types, (t.scope.fields.map (·.name)).Nodup

theorem WellScoped.addTypes {p : Program} (hp : p.WellScoped) {file : FileScope}
    {ts : List DeclaredType} (hts : Layout file [] p.types.length ts) :
    WellScoped { p with types := p.types ++ ts } where
  ids := by
    rw [List.map_append, hp.ids, hts.ids, List.length_append, List.range_eq_range',
      List.range_eq_range', ← List.range'_append_1, Nat.zero_add]
  scopes := by
    intro t ht s outer hs
    cases List.mem_append.mp ht with
    | inl h =>
      obtain ⟨u, hu, h⟩ := hp.scopes t h s outer hs
      exact ⟨u, List.mem_append_left ts hu, h⟩
    | inr h =>
      rcases hts.scopes t h s outer hs with hnil | ⟨u, hu, hus, huo⟩
      · exact absurd (List.suffix_nil.mp hnil) (List.cons_ne_nil s outer)
      · exact ⟨u, List.mem_append_right p.types hu,
          (hts.file_eq u hu).trans (hts.file_eq t h).symm, hus, huo⟩
  names := by
    intro t ht
    cases List.mem_append.mp ht with
    | inl h => exact hp.names t h
    | inr h => exact hts.names t h

theorem Built.wellScoped {p : Program} (hp : p.Built) : p.WellScoped := by
  induction hp with
  | start known => exact ⟨by simp, by simp, by simp⟩
  | @addFile p q path items _ h ih =>
    unfold Program.addFile at h
    cases hscope : Program.fileScope path items with
    | error e => simp [hscope, bind, Except.bind] at h
    | ok result =>
      simp only [hscope, bind, Except.bind, pure, Except.pure, Except.ok.injEq] at h
      rw [← h]
      exact ih.addTypes (Layout.fileTypes _ _ _)

def fields (p : Program) : List FieldRef := p.types.flatMap DeclaredType.fieldRefs

theorem mem_fields_iff {p : Program} {f : FieldRef} :
    f ∈ p.fields ↔ ∃ t ∈ p.types, f.field ∈ t.scope.fields ∧ f.owner = t.scope ∧
      f.site = t.site := by
  unfold fields DeclaredType.fieldRefs
  simp only [List.mem_flatMap, List.mem_map]
  constructor
  · rintro ⟨t, ht, d, hd, rfl⟩
    exact ⟨t, ht, hd, rfl, rfl⟩
  · rintro ⟨t, ht, hd, ho, hs⟩
    refine ⟨t, ht, f.field, hd, ?_⟩
    cases f
    simp_all

@[simp] theorem length_fields (p : Program) : p.fields.length = p.fieldCount := by
  simp [fields, fieldCount, DeclaredType.fieldRefs, List.length_flatMap]

theorem WellScoped.type_eq_of_id_eq {p : Program} (hp : p.WellScoped) {t u : DeclaredType}
    (ht : t ∈ p.types) (hu : u ∈ p.types) (h : t.scope.id = u.scope.id) : t = u := by
  have hnodup : (p.types.map (·.scope.id)).Nodup := hp.ids ▸ List.nodup_range
  exact List.inj_on_of_nodup_map hnodup ht hu h

theorem WellScoped.eq_of_key_eq {p : Program} (hp : p.WellScoped) {f g : FieldRef}
    (hf : f ∈ p.fields) (hg : g ∈ p.fields) (h : f.key = g.key) : f = g := by
  obtain ⟨t, ht, hft, hfo, hfs⟩ := mem_fields_iff.mp hf
  obtain ⟨u, hu, hgu, hgo, hgs⟩ := mem_fields_iff.mp hg
  simp only [FieldRef.key, Prod.mk.injEq] at h
  obtain ⟨hid, hname⟩ := h
  rw [hfo, hgo] at hid
  obtain rfl := hp.type_eq_of_id_eq ht hu hid
  have hfield : f.field = g.field := List.inj_on_of_nodup_map (hp.names t ht) hft hgu hname
  cases f
  cases g
  simp_all

/-- Once the answer for a field is remembered, what is known of a field is that answer, or it was
known before. -/
theorem WellScoped.of_lookup_remembered {p : Program} (hp : p.WellScoped) {f g : FieldRef}
    (hf : f ∈ p.fields) (hg : g ∈ p.fields) {c r : Option Constant}
    {memo : List ((Nat × Name) × Option Constant)}
    (h : ((f.key, c) :: memo).lookup g.key = some r) :
    (g = f ∧ r = c) ∨ memo.lookup g.key = some r := by
  rw [List.lookup_cons] at h
  split at h
  · rename_i hkey
    exact .inl ⟨hp.eq_of_key_eq hg hf (beq_iff_eq.mp hkey), (Option.some.inj h).symm⟩
  · exact .inr h

/-- A place all of whose scopes are those of types of the program. -/
def HasSite (p : Program) (site : Site) : Prop :=
  ∀ s outer, (s :: outer).IsSuffix site.scopes →
    ∃ t ∈ p.types, t.file = site.file ∧ t.scope = s ∧ t.enclosing = outer

theorem WellScoped.hasSite_site {p : Program} (hp : p.WellScoped) {t : DeclaredType}
    (ht : t ∈ p.types) : p.HasSite t.site := by
  intro s outer hs
  rcases List.suffix_cons_iff.mp hs with heq | hs
  · obtain ⟨rfl, rfl⟩ := List.cons.inj heq
    exact ⟨t, ht, rfl, rfl, rfl⟩
  · exact hp.scopes t ht s outer hs

theorem WellScoped.hasSite_of_mem {p : Program} (hp : p.WellScoped) {f : FieldRef}
    (hf : f ∈ p.fields) : p.HasSite f.site := by
  obtain ⟨t, ht, _, _, hs⟩ := mem_fields_iff.mp hf
  exact hs ▸ hp.hasSite_site ht

theorem mem_fields_of_field? {p : Program} {t : DeclaredType} (ht : t ∈ p.types) {n : Name}
    {f : FieldRef} (h : t.field? n = some f) : f ∈ p.fields := by
  obtain ⟨d, hd, rfl⟩ := Option.map_eq_some_iff.mp h
  exact mem_fields_iff.mpr ⟨t, ht, List.mem_of_find?_eq_some hd, rfl, rfl⟩

theorem mem_types_of_type? {p : Program} {n : Name} {t : DeclaredType} (h : p.type? n = some t) :
    t ∈ p.types :=
  List.mem_reverse.mp (List.mem_of_find?_eq_some h)

theorem mem_fields_of_fieldInScopes {p : Program} {file : FileScope} {n : Name}
    {scopes : List TypeScope} (hsite : p.HasSite ⟨file, scopes⟩) {f : FieldRef}
    (h : fieldInScopes file n scopes = some f) : f ∈ p.fields := by
  induction scopes with
  | nil => simp [fieldInScopes] at h
  | cons s outer ih =>
    simp only [fieldInScopes] at h
    split at h
    · rename_i d hd
      obtain rfl := Option.some.inj h
      obtain ⟨t, ht, hfile, rfl, rfl⟩ := hsite s outer List.suffix_rfl
      simp only at hfile
      exact mem_fields_iff.mpr
        ⟨t, ht, List.mem_of_find?_eq_some hd, rfl, by rw [← hfile]; rfl⟩
    · exact ih (fun s' outer' hs => hsite s' outer' (hs.trans (List.suffix_cons s outer))) h

theorem HasSite.mem_fields {p : Program} {site : Site} (hsite : p.HasSite site) {n : Name}
    {f : FieldRef} (h : p.field? site n = some f) : f ∈ p.fields := by
  unfold field? at h
  split at h
  · rename_i g hg
    obtain rfl := Option.some.inj h
    exact mem_fields_of_fieldInScopes hsite hg
  · simp only at h
    split at h
    · rename_i g hg
      obtain rfl := Option.some.inj h
      simp only [bind, Option.bind_eq_some_iff] at hg
      obtain ⟨_, _, t, ht, hf⟩ := hg
      exact mem_fields_of_field? (mem_types_of_type? ht) hf
    · obtain ⟨owner, _, howner⟩ := List.exists_of_findSome?_eq_some h
      simp only [bind, Option.bind_eq_some_iff] at howner
      obtain ⟨t, ht, hf⟩ := howner
      exact mem_fields_of_field? (mem_types_of_type? ht) hf

theorem mem_fields_of_fieldOf? {p : Program} {site : Site} {owner n : Name} {f : FieldRef}
    (h : p.fieldOf? site owner n = some f) : f ∈ p.fields := by
  simp only [fieldOf?, bind, Option.bind_eq_some_iff] at h
  obtain ⟨t, ht, hf⟩ := h
  exact mem_fields_of_field? (mem_types_of_type? ht) hf

end Program

end LookupGen
