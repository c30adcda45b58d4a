import LookupGen.Proofs.Java.Parts
import LookupGen.Proofs.Program.Apart
import LookupGen.Proofs.SourceReader

/-!
# Parts of a program

The parts of source files stand in the types of a program as they are. So what holds of the parts of
each file holds of those of the program that is read from the files.
-/

namespace LookupGen

open Java (PartSpec)

variable {S : PartSpec}

structure FieldDecl.Holds (S : PartSpec) (f : FieldDecl) : Prop where
  name : S.member f.name
  type : ∀ u, f.type = some u → u.Holds S
  initializer : ∀ e, f.initializer = some e → e.Holds S
  modifiers : f.modifiers.Holds S

/-- The parts of a declared type, those of the types inside it aside. -/
structure DeclaredType.Holds (S : PartSpec) (t : DeclaredType) : Prop where
  simpleName : S.declared t.scope.simpleName
  fields : ∀ f ∈ t.scope.fields, f.Holds S
  modifiers : t.modifiers.Holds S
  methods : ∀ m ∈ t.methods, m.modifiers.Holds S

def Program.Holds (S : PartSpec) (p : Program) : Prop := ∀ t ∈ p.types, t.Holds S

namespace DeclaredType

theorem holds_of_mem_memberFields {final : Bool} {m : Java.Member} (hm : m.Holds S) {f : FieldDecl}
    (hf : f ∈ memberFields final m) : f.Holds S := by
  cases m with
  | fields modifiers type ds =>
    obtain ⟨d, hd, rfl⟩ := List.mem_map.mp hf
    unfold Java.Member.Holds at hm
    obtain ⟨hmodifiers, htype, hds⟩ := hm
    refine ⟨(hds d hd).name, ?_, (hds d hd).initializer, hmodifiers⟩
    intro u hu
    obtain rfl := Option.some.inj hu
    exact htype
  | constant modifiers name line =>
    obtain rfl := List.mem_singleton.mp hf
    unfold Java.Member.Holds at hm
    exact ⟨hm.2, nofun, nofun, hm.1⟩
  | method kind modifiers name line => cases hf
  | type d => cases hf

theorem holds_of_mem_methodsOf {members : List Java.Member} (hmembers : ∀ m ∈ members, m.Holds S)
    {m : MethodDecl} (hm : m ∈ methodsOf members) : m.modifiers.Holds S := by
  obtain ⟨member, hmember, heq⟩ := List.mem_filterMap.mp hm
  have hholds := hmembers member hmember
  cases member with
  | method kind modifiers name line =>
    obtain rfl := Option.some.inj heq
    unfold Java.Member.Holds at hholds
    exact hholds
  | fields | constant | type => cases heq

/-- By induction on the declaration: what the declarations inside one inherit from it, they hand on
to their types. -/
theorem forall_mem_ofDeclaration {Q : Java.TypeDeclaration → Prop} {P : DeclaredType → Prop}
    (hinner : ∀ kind m name line members, Q (.mk kind m name line members) →
      ∀ d, .type d ∈ members → Q d)
    (hown : ∀ file around id name kind m simple line members, Q (.mk kind m simple line members) →
      P ⟨file, scopeOf id name (.mk kind m simple line members), around, kind, m, line,
        methodsOf members⟩)
    (file : FileScope) (around : List TypeScope) (id : Nat) (name : Name) (d : Java.TypeDeclaration)
    (hd : Q d) : ∀ t ∈ ofDeclaration file around id name d, P t := by
  refine DeclaredType.ofDeclaration.induct file
    (fun around id name d => Q d → ∀ t ∈ ofDeclaration file around id name d, P t)
    (fun around id outer ms =>
      (∀ d, .type d ∈ ms → Q d) → ∀ t ∈ ofMembers file around id outer ms, P t)
    (fun around id outer m => (∀ d, m = .type d → Q d) → ∀ t ∈ ofMember file around id outer m, P t)
    ?_ ?_ ?_ ?_ ?_ around id name d hd
  · intro around id outer kind m name line members ih hm
    rw [ofMember]
    exact ih (hm _ rfl)
  · intro m around id outer hm _ t ht
    unfold ofMember at ht
    split at ht
    · exact (hm _ _ _ _ _ rfl).elim
    · cases ht
  · intro around id name kind m simple line members scope ih hd
    rw [ofDeclaration]
    exact List.forall_mem_cons.mpr ⟨hown _ _ _ _ _ _ _ _ _ hd, ih (hinner _ _ _ _ _ hd)⟩
  · intro around id outer _ t ht
    simp only [ofMembers] at ht
    cases ht
  · intro around id outer member rest own ihMember ihRest hms
    rw [ofMembers]
    refine List.forall_mem_append.mpr ⟨ihMember ?_, ihRest ?_⟩
    · rintro d rfl
      exact hms d List.mem_cons_self
    · exact fun d hd => hms d (List.mem_cons_of_mem member hd)

theorem forall_mem_fileTypes {Q : Java.TypeDeclaration → Prop} {P : DeclaredType → Prop}
    (hQ : ∀ file around id name d, Q d → ∀ t ∈ ofDeclaration file around id name d, P t)
    (file : FileScope) (id : Nat) (types : List (Name × Java.TypeDeclaration))
    (h : ∀ e ∈ types, Q e.2) : ∀ t ∈ Program.fileTypes file id types, P t := by
  induction types generalizing id with
  | nil => exact fun t ht => absurd ht List.not_mem_nil
  | cons entry rest ih =>
    obtain ⟨hentry, hrest⟩ := List.forall_mem_cons.mp h
    rw [Program.fileTypes]
    exact List.forall_mem_append.mpr ⟨hQ file [] id entry.1 entry.2 hentry, ih _ hrest⟩

theorem holds_of_mem_ofDeclaration (file : FileScope) (around : List TypeScope) (id : Nat)
    (name : Name) (d : Java.TypeDeclaration) (hd : d.Holds S) :
    ∀ t ∈ ofDeclaration file around id name d, t.Holds S := by
  refine forall_mem_ofDeclaration ?_ ?_ file around id name d hd
  · rintro kind m simple line members hd ⟨kind', m', simple', line', members'⟩ hmem
    unfold Java.TypeDeclaration.Holds at hd
    have hmember := Java.Member.allHold_iff.mp hd.2.2 _ hmem
    unfold Java.Member.Holds at hmember
    exact hmember
  · intro file around id name kind m simple line members hd
    unfold Java.TypeDeclaration.Holds at hd
    obtain ⟨hmodifiers, hsimple, hmembers⟩ := hd
    have hmembers := Java.Member.allHold_iff.mp hmembers
    refine ⟨hsimple, ?_, hmodifiers, fun m hm => holds_of_mem_methodsOf hmembers hm⟩
    intro f hf
    obtain ⟨final, m, hm, hf⟩ := mem_fieldsOf hf
    exact holds_of_mem_memberFields (hmembers m hm) hf

end DeclaredType

namespace Program

theorem holds_of_fileScope {path : Text} {items : List Java.Item}
    {c : FileScope × List (Name × Java.TypeDeclaration)} (hitems : ∀ item ∈ items, item.Holds S)
    (h : fileScope path items = .ok c) : ∀ e ∈ c.2, e.2.Holds S := by
  refine ok_foldlM (P := fun c => ∀ e ∈ c.2, e.2.Holds S) ?_ nofun h
  rintro ⟨file, types⟩ item hmem c htypes hc
  cases item with
  | package name =>
    obtain ⟨name, -, hc⟩ := bind_eq_ok.mp hc
    obtain rfl := Except.ok.inj hc
    exact htypes
  | «import» form name =>
    obtain ⟨name, -, hc⟩ := bind_eq_ok.mp hc
    obtain rfl := Except.ok.inj hc
    exact htypes
  | type d =>
    obtain ⟨kind, m, name, line, members⟩ := d
    obtain rfl := Except.ok.inj hc
    exact List.forall_mem_append.mpr ⟨htypes, List.forall_mem_singleton.mpr (hitems _ hmem)⟩

end Program

namespace SourceReader

variable {d : Disk} {p q : Program} {path : Path} {files : List Path}

def FileHolds (S : PartSpec) (d : Disk) (path : Path) : Prop :=
  ∀ content items, d.read path = .ok content → Java.parseFile content = .ok items →
    ∀ item ∈ items, item.Holds S

theorem holds_readFile (hp : p.Holds S) (hpath : FileHolds S d path)
    (h : readFile d p path = .ok q) : q.Holds S := by
  obtain ⟨c, hcontents, rfl⟩ := readFile_eq_ok h
  obtain ⟨content, items, hread, hparse, hscope⟩ := exists_items hcontents
  have htypes := Program.holds_of_fileScope (hpath content items hread hparse) hscope
  exact List.forall_mem_append.mpr
    ⟨hp, DeclaredType.forall_mem_fileTypes DeclaredType.holds_of_mem_ofDeclaration c.1 _ c.2 htypes⟩

theorem holds_readFiles (hp : p.Holds S) (hfiles : ∀ path ∈ files, FileHolds S d path) :
    (readFiles d p files).1.Holds S := by
  induction files generalizing p with
  | nil => exact hp
  | cons path rest ih =>
    obtain ⟨hpath, hrest⟩ := List.forall_mem_cons.mp hfiles
    rw [readFiles]
    split
    · exact hp
    · rename_i hread
      exact ih (holds_readFile hp hpath hread) hrest

end SourceReader

end LookupGen
