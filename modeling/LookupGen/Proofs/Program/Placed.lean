import LookupGen.Proofs.Program.Apart
import LookupGen.Proofs.SourceReader

/-!
# Where types are declared

The types that stand at the top of a file or directly inside another type, in the order of the file:
a type comes before those inside it, and these before what follows it. The types of a program are
the declared ones in that order, with their names and their fields.

This module does NOT say what a file looks like, only what its declarations come to.
-/

namespace LookupGen

open Java (Item Member Modifiers TypeDeclaration)

/-- A declared type and where it stands: in a file, in a package, and inside other types, the names
of which come from the outermost to the innermost. -/
structure Placed where
  path : Text
  package : Name
  around : List Name
  kind : TypeKind
  modifiers : Modifiers
  name : Name
  line : Nat
  members : List Member

namespace Placed

mutual

def ofDeclaration (path : Text) (package : Name) (around : List Name) :
    TypeDeclaration → List Placed
  | .mk kind m name line members =>
    ⟨path, package, around, kind, m, name, line, members⟩ ::
      ofMembers path package (around ++ [name]) members

def ofMembers (path : Text) (package : Name) (around : List Name) : List Member → List Placed
  | [] => []
  | member :: rest => ofMember path package around member ++ ofMembers path package around rest

def ofMember (path : Text) (package : Name) (around : List Name) : Member → List Placed
  | .type (.mk kind m name line members) =>
    ofDeclaration path package around (.mk kind m name line members)
  | _ => []

end

/-- The declarations of a file. A package counts for those after it. -/
def ofItems (path : Text) : Name → List Item → List Placed
  | _, [] => []
  | package, .package name :: rest => ofItems path (name.toOption.getD package) rest
  | package, .import _ _ :: rest => ofItems path package rest
  | package, .type d :: rest => ofDeclaration path package [] d ++ ofItems path package rest

/-- The declarations of some files that hold some items, one file after the other. -/
def ofFiles (files : List Path) (units : List (List Item)) : List Placed :=
  (files.zip units).flatMap fun (path, items) => ofItems path.toText [] items

theorem ofMember_of_not_type {path : Text} {package : Name} {around : List Name} {member : Member}
    (h : ∀ d, member ≠ .type d) : ofMember path package around member = [] := by
  cases member with
  | type d => exact absurd rfl (h d)
  | fields m type ds => simp [ofMember]
  | constant m name line => simp [ofMember]
  | method sort m name line => simp [ofMember]

/-- A package as the start of a name; no package adds nothing. -/
def base (package : Name) : List Name := if package.isEmpty then [] else [package]

section Parts

variable (t : Placed)

/-- The package, if there is one, the types around a type, and the type itself, with dots between
neighbours. -/
def qualifiedName : Name := Text.joinWith "." (base t.package ++ t.around ++ [t.name])

/-- All fields and constants that the members declare, those of one name included. -/
def declared : List FieldDecl :=
  t.members.flatMap
    (DeclaredType.memberFields (decide (t.kind = .interface ∨ t.kind = .annotationType)))

/-- One field for each name, in the order in which the names are first declared, as the last
declaration of the name has it. -/
def fields : List FieldDecl :=
  (t.declared.map (·.name)).eraseDups.filterMap fun n =>
    t.declared.reverse.find? fun f => decide (f.name = n)

def methods : List MethodDecl := DeclaredType.methodsOf t.members

end Parts

end Placed

namespace DeclaredType

def putAllFields (added : List FieldDecl) : List FieldDecl :=
  added.foldl (fun fields f => putField f fields) []

@[simp] theorem putAllFields_concat (added : List FieldDecl) (f : FieldDecl) :
    putAllFields (added ++ [f]) = putField f (putAllFields added) := by
  unfold putAllFields
  rw [List.foldl_concat]

theorem eraseDups_concat {α : Type} [DecidableEq α] [BEq α] [LawfulBEq α] (as : List α) (a : α) :
    (as ++ [a]).eraseDups = as.eraseDups ++ if a ∈ as then [] else [a] := by
  rw [List.eraseDups_append]
  split
  · rename_i h
    simp [List.removeAll, h]
  · rename_i h
    simp [List.removeAll, h, List.eraseDups_cons]

theorem putAllFields_names (added : List FieldDecl) :
    (putAllFields added).map (·.name) = (added.map (·.name)).eraseDups := by
  induction added using List.reverseRecOn with
  | nil => rfl
  | append_singleton added f ih =>
    rw [putAllFields_concat, List.map_append, List.map_singleton, eraseDups_concat]
    split
    · rename_i hmem
      have hput : f.name ∈ (putAllFields added).map (·.name) := ih ▸ List.mem_eraseDups.mpr hmem
      rw [putField_names_of_mem hput, ih, List.append_nil]
    · rename_i hmem
      have hput : f.name ∉ (putAllFields added).map (·.name) :=
        fun h => hmem (List.mem_eraseDups.mp (ih ▸ h))
      rw [putField_names_of_not_mem hput, ih]

theorem putAllFields_nodup (added : List FieldDecl) :
    ((putAllFields added).map (·.name)).Nodup := by
  induction added using List.reverseRecOn with
  | nil => exact List.nodup_nil
  | append_singleton added f ih =>
    rw [putAllFields_concat]
    exact putField_nodup f ih

theorem self_mem_putField (f : FieldDecl) (fs : List FieldDecl) : f ∈ putField f fs := by
  induction fs with
  | nil => exact List.mem_singleton_self f
  | cons g rest ih =>
    rw [putField]
    split
    · exact List.mem_cons_self
    · exact List.mem_cons_of_mem g ih

theorem find?_of_mem_putAllFields {added : List FieldDecl} {f : FieldDecl}
    (hf : f ∈ putAllFields added) :
    added.reverse.find? (fun g => decide (g.name = f.name)) = some f := by
  induction added using List.reverseRecOn generalizing f with
  | nil => cases hf
  | append_singleton added g ih =>
    have hnodup := putAllFields_nodup (added ++ [g])
    rw [putAllFields_concat] at hf hnodup
    rw [List.reverse_append, List.reverse_singleton, List.singleton_append, List.find?_cons]
    by_cases hname : g.name = f.name
    · have heq : g = f := List.inj_on_of_nodup_map hnodup (self_mem_putField g _) hf hname
      simp [heq]
    · rcases mem_putField hf with rfl | hmem
      · exact absurd rfl hname
      · simpa [hname] using ih hmem

theorem putAllFields_eq (added : List FieldDecl) :
    putAllFields added = (added.map (·.name)).eraseDups.filterMap fun n =>
      added.reverse.find? fun f => decide (f.name = n) := by
  rw [← putAllFields_names, List.filterMap_map]
  calc putAllFields added = (putAllFields added).filterMap some := List.filterMap_some.symm
    _ = _ := List.filterMap_congr fun f hf => (find?_of_mem_putAllFields hf).symm

end DeclaredType

theorem Placed.fields_eq (t : Placed) : DeclaredType.fieldsOf t.kind t.members = t.fields :=
  DeclaredType.putAllFields_eq t.declared

theorem Text.joinWith_concat (sep : Text) {ts : List Text} (hts : ts ≠ []) (t : Text) :
    joinWith sep (ts ++ [t]) = joinWith sep ts ++ (sep ++ t) := by
  induction ts with
  | nil => exact absurd rfl hts
  | cons first rest ih =>
    cases rest with
    | nil => simp [joinWith]
    | cons second rest =>
      have hrest := ih (List.cons_ne_nil second rest)
      simp only [List.cons_append, joinWith] at hrest ⊢
      rw [hrest]
      simp only [List.append_assoc]

structure DeclaredType.Stands (u : DeclaredType) (t : Placed) : Prop where
  path : u.file.path = t.path
  name : u.name = t.qualifiedName
  around : u.enclosing.map (·.simpleName) = t.around.reverse
  kind : u.kind = t.kind
  modifiers : u.modifiers = t.modifiers
  line : u.line = t.line
  fields : u.scope.fields = t.fields
  methods : u.methods = t.methods

namespace Placed

theorem qualifiedName_top (package name : Name) :
    Name.within package name = Text.joinWith "." (base package ++ [] ++ [name]) := by
  unfold Name.within base
  split
  · rfl
  · simp [Text.join, Text.joinWith]

theorem qualifiedName_inner (names : List Name) (hnames : names ≠ []) (name : Name) :
    Text.join [Text.joinWith "." names, ".", name] = Text.joinWith "." (names ++ [name]) := by
  rw [Text.joinWith_concat "." hnames]
  simp [Text.join]

/-- By induction on the declaration: the name of a type is the last one of those around the types
inside it. -/
theorem stands_ofDeclaration (file : FileScope) (package : Name)
    (scopes : List TypeScope) (id : Nat)
    (qualified : Name) (kind : TypeKind) (m : Modifiers) (name : Name) (line : Nat)
    (members : List Member) (around : List Name)
    (hscopes : scopes.map (·.simpleName) = around.reverse)
    (hqualified : qualified = Text.joinWith "." (base package ++ around ++ [name])) :
    List.Forall₂ DeclaredType.Stands
      (DeclaredType.ofDeclaration file scopes id qualified (.mk kind m name line members))
      (ofDeclaration file.path package around (.mk kind m name line members)) := by
  refine DeclaredType.ofDeclaration.induct file
    (fun scopes id qualified d => ∀ kind m name line members around,
      d = .mk kind m name line members →
      scopes.map (·.simpleName) = around.reverse →
      qualified = Text.joinWith "." (base package ++ around ++ [name]) →
      List.Forall₂ DeclaredType.Stands (DeclaredType.ofDeclaration file scopes id qualified d)
        (ofDeclaration file.path package around d))
    (fun scopes id outer ms => ∀ around, around ≠ [] → scopes.map (·.simpleName) = around.reverse →
      outer = Text.joinWith "." (base package ++ around) →
      List.Forall₂ DeclaredType.Stands (DeclaredType.ofMembers file scopes id outer ms)
        (ofMembers file.path package around ms))
    (fun scopes id outer member => ∀ around, around ≠ [] →
      scopes.map (·.simpleName) = around.reverse →
      outer = Text.joinWith "." (base package ++ around) →
      List.Forall₂ DeclaredType.Stands (DeclaredType.ofMember file scopes id outer member)
        (ofMember file.path package around member))
    ?_ ?_ ?_ ?_ ?_ scopes id qualified _ kind m name line members around rfl hscopes hqualified
  · intro scopes id outer kind m name line members ih around hne hscopes houter
    rw [DeclaredType.ofMember, ofMember]
    refine ih _ _ _ _ _ around rfl hscopes ?_
    rw [houter]
    exact qualifiedName_inner _ (List.append_ne_nil_of_right_ne_nil _ hne) name
  · intro member scopes id outer hnot around _ _ _
    have hleft : DeclaredType.ofMember file scopes id outer member = [] := by
      unfold DeclaredType.ofMember
      split
      · exact (hnot _ _ _ _ _ rfl).elim
      · rfl
    rw [hleft, ofMember_of_not_type fun d hd => by cases d; exact hnot _ _ _ _ _ hd]
    exact .nil
  · intro scopes id qualified kind m simple line members scope ih kind' m' name line'
      members' around heq
      hscopes hqualified
    obtain ⟨rfl, rfl, rfl, rfl, rfl⟩ := TypeDeclaration.mk.inj heq
    rw [DeclaredType.ofDeclaration, ofDeclaration]
    refine .cons ⟨rfl, hqualified, hscopes, rfl, rfl, rfl, ?_, rfl⟩ ?_
    · exact fields_eq ⟨file.path, package, around, kind, m, simple, line, members⟩
    · refine ih _ (List.append_ne_nil_of_right_ne_nil _ (List.cons_ne_nil _ _)) ?_ ?_
      · rw [List.map_cons, hscopes, List.reverse_append]
        rfl
      · rw [hqualified, List.append_assoc]
  · intro scopes id outer around _ _ _
    rw [DeclaredType.ofMembers, ofMembers]
    exact .nil
  · intro scopes id outer member rest own ihMember ihRest around hne hscopes houter
    rw [DeclaredType.ofMembers, ofMembers]
    exact List.rel_append (ihMember around hne hscopes houter) (ihRest around hne hscopes houter)

end Placed

namespace Program

def fileStep (c : FileScope × List (Name × TypeDeclaration)) (item : Item) :
    Except Utf8.DecodeError (FileScope × List (Name × TypeDeclaration)) :=
  match item with
  | .package name => name.map fun name => ({ c.1 with package := name }, c.2)
  | .import form name => name.map fun name => (c.1.addImport form name, c.2)
  | .type (.mk kind m name line members) =>
    .ok ({ c.1 with topLevel := c.1.topLevel ++ [(name, Name.within c.1.package name)] },
      c.2 ++ [(Name.within c.1.package name, .mk kind m name line members)])

theorem fileScope_eq (path : Text) (items : List Item) :
    fileScope path items = items.foldlM fileStep (FileScope.ofPath path, []) := rfl

theorem stands_foldlM {items : List Item} {start c : FileScope × List (Name × TypeDeclaration)}
    (h : items.foldlM fileStep start = .ok c) :
    c.1.path = start.1.path ∧ ∃ more, c.2 = start.2 ++ more ∧
      ∀ file : FileScope, file.path = start.1.path → ∀ id,
        List.Forall₂ DeclaredType.Stands (fileTypes file id more)
          (Placed.ofItems start.1.path start.1.package items) := by
  induction items generalizing start with
  | nil =>
    obtain rfl := Except.ok.inj h
    exact ⟨rfl, [], (List.append_nil _).symm, fun _ _ _ => .nil⟩
  | cons item rest ih =>
    rw [List.foldlM_cons] at h
    obtain ⟨next, hnext, hrest⟩ := bind_eq_ok.mp h
    obtain ⟨hpath, more, hmore, hstands⟩ := ih hrest
    cases item with
    | package name =>
      cases name with
      | error e => cases hnext
      | ok name =>
        obtain rfl := Except.ok.inj hnext
        exact ⟨hpath, more, hmore, hstands⟩
    | «import» form name =>
      cases name with
      | error e => cases hnext
      | ok name =>
        obtain rfl := Except.ok.inj hnext
        cases form <;> exact ⟨hpath, more, hmore, hstands⟩
    | type d =>
      obtain ⟨kind, m, name, line, members⟩ := d
      obtain rfl := Except.ok.inj hnext
      refine ⟨hpath, _ :: more, by rw [hmore, List.append_assoc]; rfl, ?_⟩
      intro file hfile id
      rw [fileTypes, Placed.ofItems, ← hfile]
      refine List.rel_append ?_ (hfile ▸ hstands file hfile _)
      exact Placed.stands_ofDeclaration file _ [] id _ kind m name line members [] rfl
        (Placed.qualifiedName_top _ name)

theorem stands_fileTypes {path : Text} {items : List Item}
    {c : FileScope × List (Name × TypeDeclaration)} (h : fileScope path items = .ok c) (id : Nat) :
    List.Forall₂ DeclaredType.Stands (fileTypes c.1 id c.2) (Placed.ofItems path [] items) := by
  rw [fileScope_eq] at h
  obtain ⟨hpath, more, hmore, hstands⟩ := stands_foldlM h
  rw [hmore]
  exact hstands c.1 hpath id

end Program

namespace SourceReader

variable {d : Disk} {p q : Program} {files : List Path}

def Reads (d : Disk) (path : Path) (items : List Item) : Prop :=
  ∃ content, d.read path = .ok content ∧ Java.parseFile content = .ok items

theorem stands_readFile {path : Path} (h : readFile d p path = .ok q) :
    ∃ items more, Reads d path items ∧ q.types = p.types ++ more ∧
      List.Forall₂ DeclaredType.Stands more (Placed.ofItems path.toText [] items) := by
  obtain ⟨c, hcontents, rfl⟩ := readFile_eq_ok h
  obtain ⟨content, items, hread, hparse, hscope⟩ := exists_items hcontents
  exact ⟨items, _, ⟨content, hread, hparse⟩, rfl, Program.stands_fileTypes hscope _⟩

theorem stands_readFiles (h : readFiles d p files = (q, none)) :
    ∃ units more, List.Forall₂ (Reads d) files units ∧ q.types = p.types ++ more ∧
      List.Forall₂ DeclaredType.Stands more (Placed.ofFiles files units) := by
  induction files generalizing p with
  | nil =>
    obtain rfl := (Prod.mk.inj h).1
    exact ⟨[], [], .nil, (List.append_nil _).symm, .nil⟩
  | cons path rest ih =>
    rw [readFiles] at h
    split at h
    · cases h
    · rename_i program hread
      obtain ⟨items, own, hreads, hown, hstands⟩ := stands_readFile hread
      obtain ⟨units, more, hunits, hmore, hrest⟩ := ih h
      refine ⟨items :: units, own ++ more, .cons hreads hunits, ?_, ?_⟩
      · rw [hmore, hown, List.append_assoc]
      · exact List.rel_append hstands hrest

end SourceReader

end LookupGen
