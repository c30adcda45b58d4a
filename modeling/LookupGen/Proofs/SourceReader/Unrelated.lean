import LookupGen.Proofs.Program.Apart
import LookupGen.Proofs.SourceReader

/-!
# Unrelated files

A file whose types no other file mentions changes nothing about the others: its elements come in a
block of their own, and the blocks of the other files are the same with it and without it.
-/

namespace LookupGen

open Program (AgreesOn TwinsOn)

variable {S : Name → Prop}

namespace Program

theorem package_within {scope n : Name} (hn : CodePoint.ofChar '.' ∉ n)
    (hscope : scope = [] ∨ scope.WordEnded) (h : CodePoint.ofChar '.' ∈ Name.within scope n) :
    (Name.within scope n).package.WordEnded := by
  rcases Name.within_eq scope n with heq | heq
  · rw [heq] at h
    exact absurd h hn
  · rcases hscope with rfl | hscope
    · exact absurd h hn
    · rw [heq, Name.package_append scope hn]
      exact hscope

theorem apart_addImport {f : FileScope} {form : Java.ImportForm} {name : Name} (hf : f.Apart S)
    (hsimple : ¬ S name.simple) (howner : name.simple.IsWord → ¬ S name.package.simple) :
    (f.addImport form name).Apart S := by
  cases form with
  | single =>
    refine { hf with singleImports := ?_ }
    intro e he
    rcases List.mem_append.mp he with he | he
    · exact hf.singleImports e he
    · obtain rfl := List.mem_singleton.mp he
      rfl
  | onDemand => exact { hf with }
  | staticSingle =>
    refine { hf with staticImports := ?_ }
    intro e he
    rcases List.mem_append.mp he with he | he
    · exact hf.staticImports e he
    · obtain rfl := List.mem_singleton.mp he
      exact howner
  | staticOnDemand =>
    refine { hf with staticOnDemandImports := ?_ }
    intro n hn
    rcases List.mem_append.mp hn with hn | hn
    · exact hf.staticOnDemandImports n hn
    · obtain rfl := List.mem_singleton.mp hn
      exact hsimple

/-- By induction on the items: each of them leaves a scope that leads elsewhere. -/
theorem apart_of_fileScope {path : Text} {items : List Java.Item}
    {c : FileScope × List (Name × Java.TypeDeclaration)}
    (hitems : ∀ item ∈ items, item.Meets (.apart S)) (h : fileScope path items = .ok c) :
    c.1.Apart S ∧ ∀ e ∈ c.2, e.2.Meets (.apart S) ∧ e.1.simple = e.2.simpleName ∧
      (CodePoint.ofChar '.' ∈ e.1 → e.1.package.WordEnded) := by
  refine ok_foldlM (P := fun c => c.1.Apart S ∧ ∀ e ∈ c.2, e.2.Meets (.apart S) ∧
    e.1.simple = e.2.simpleName ∧ (CodePoint.ofChar '.' ∈ e.1 → e.1.package.WordEnded)) ?_ ?_ h
  · rintro ⟨file, types⟩ item hmem c ⟨hfile, htypes⟩ hc
    have hitem := hitems item hmem
    cases item with
    | package name =>
      obtain ⟨name, rfl, hc⟩ := bind_eq_ok.mp hc
      obtain rfl := Except.ok.inj hc
      exact ⟨{ hfile with package := .inr (hitem name rfl).1 }, htypes⟩
    | «import» form name =>
      obtain ⟨name, rfl, hc⟩ := bind_eq_ok.mp hc
      obtain rfl := Except.ok.inj hc
      obtain ⟨-, hsimple, howner⟩ := hitem name rfl
      exact ⟨apart_addImport hfile hsimple howner, htypes⟩
    | type d =>
      obtain ⟨kind, m, name, line, members⟩ := d
      obtain rfl := Except.ok.inj hc
      have hd : Java.TypeDeclaration.Meets (.apart S) (.mk kind m name line members) := hitem
      have hword : name.IsWord := by
        unfold Java.TypeDeclaration.Meets at hd
        exact hd.2.1
      have hsimple : (Name.within file.package name).simple = name :=
        (Name.simple_within _ _).trans (Name.simple_of_not_mem hword.dot_not_mem)
      constructor
      · refine { hfile with topLevel := ?_ }
        intro e he
        rcases List.mem_append.mp he with he | he
        · exact hfile.topLevel e he
        · obtain rfl := List.mem_singleton.mp he
          exact hsimple
      · intro e he
        rcases List.mem_append.mp he with he | he
        · exact htypes e he
        · obtain rfl := List.mem_singleton.mp he
          exact ⟨hd, hsimple, package_within hword.dot_not_mem hfile.package⟩
  · exact ⟨⟨.inl rfl, nofun, nofun, nofun, nofun⟩, nofun⟩

end Program

@[simp] theorem DeclaredType.apart_unnumbered {t : DeclaredType} :
    t.unnumbered.Apart S ↔ t.Apart S := by
  have hscopes : (∀ s ∈ t.unnumbered.scope :: t.unnumbered.enclosing, s.Named) ↔
      ∀ s ∈ t.scope :: t.enclosing, s.Named := by
    change (∀ s ∈ (t.scope :: t.enclosing).map TypeScope.unnumbered, s.Named) ↔ _
    rw [List.forall_mem_map]
    exact forall₂_congr fun s _ => ⟨fun h => ⟨h.1, h.2, h.3⟩, fun h => ⟨h.1, h.2, h.3⟩⟩
  constructor
  · intro h
    exact ⟨hscopes.mp h.scopes, h.types, h.initializers, h.annotations, h.modifiers, h.methods⟩
  · intro h
    exact ⟨hscopes.mpr h.scopes, h.types, h.initializers, h.annotations, h.modifiers, h.methods⟩

namespace SourceReader

variable {d : Disk} {p q : Program} {path g : Path} {files files₁ files₂ : List Path}
variable {known : List Name}

def FileApart (S : Name → Prop) (d : Disk) (path : Path) : Prop :=
  ∀ content items, d.read path = .ok content → Java.parseFile content = .ok items →
    ∀ item ∈ items, item.Meets (.apart S)

theorem apart_of_mem_declared (h : FileApart S d path) {t : DeclaredType}
    (ht : t ∈ declared d path) : t.Apart S ∧ t.file.Apart S := by
  obtain ⟨c, hcontents, ht⟩ := contents_of_mem_declared ht
  obtain ⟨content, items, hread, hparse, hscope⟩ := exists_items hcontents
  obtain ⟨hfile, htypes⟩ := Program.apart_of_fileScope (h content items hread hparse) hscope
  refine ⟨Program.apart_of_mem_fileTypes c.1 0 c.2 htypes t ht, ?_⟩
  rw [(Layout.fileTypes c.1 0 c.2).file_eq t ht]
  exact hfile

/-- The simple names of the types that a file declares, nested ones included. -/
def declaredWords (d : Disk) (path : Path) : List Name :=
  (declared d path).map (·.scope.simpleName)

theorem qualify_declaredNames (h : FileApart (fun _ => False) d g) :
    Qualify (· ∈ declaredWords d g) (· ∈ declaredNames d g) := by
  intro n hn
  obtain ⟨t, ht, rfl⟩ := List.mem_map.mp hn
  have hnamed := (apart_of_mem_declared h ht).1.scopes t.scope List.mem_cons_self
  exact ⟨hnamed.simple ▸ List.mem_map_of_mem ht, hnamed.package⟩

theorem find?_flatMap_insert {α β κ : Type} [DecidableEq κ] {f : α → List β} {key : β → κ} {k : κ}
    {as bs : List α} {a : α} (h : k ∉ (f a).map key) :
    ((as ++ bs).flatMap f).reverse.find? (fun x => decide (key x = k)) =
      ((as ++ a :: bs).flatMap f).reverse.find? fun x => decide (key x = k) := by
  have hnone : (f a).reverse.find? (fun x => decide (key x = k)) = none := by
    simp only [List.find?_eq_none, List.mem_reverse, decide_eq_true_eq]
    intro x hx hkey
    exact h (hkey ▸ List.mem_map_of_mem hx)
  simp only [List.flatMap_append, List.flatMap_cons, List.reverse_append, List.find?_append]
  rw [hnone, Option.or_none]

theorem agreesOn_insert (hread : readFiles d ⟨[], known⟩ (files₁ ++ files₂) = (p, none))
    (hread' : readFiles d ⟨[], known⟩ (files₁ ++ g :: files₂) = (q, none)) :
    AgreesOn (fun n => n ∉ declaredNames d g) p q := by
  refine ⟨(readFiles_types hread).1.trans (readFiles_types hread').1.symm, ?_⟩
  intro n hn
  rw [p.type?_unnumbered, q.type?_unnumbered, types_of_readFiles hread, types_of_readFiles hread',
    ← List.map_reverse, ← List.map_reverse, List.find?_map, List.find?_map]
  exact congrArg (Option.map DeclaredType.unnumbered) (find?_flatMap_insert hn)

theorem confined_insert (hread : readFiles d ⟨[], known⟩ files = (p, none))
    (hg : FileApart (fun _ => False) d g)
    (hfiles : ∀ path ∈ files, FileApart (· ∈ declaredWords d g) d path) :
    p.Confined fun n => n ∉ declaredNames d g := by
  intro t ht
  obtain ⟨path, hpath, u, hu, hsame⟩ := (exists_type_iff hread _).mp ⟨t, ht, rfl⟩
  obtain ⟨hapart, hfile⟩ := apart_of_mem_declared (hfiles path hpath) hu
  rw [← DeclaredType.apart_unnumbered, hsame, DeclaredType.apart_unnumbered] at hapart
  rw [(DeclaredType.parts_eq hsame).1] at hfile
  exact hapart.confined hfile (qualify_declaredNames hg) p

theorem twinsOn_insert (hread : readFiles d ⟨[], known⟩ (files₁ ++ files₂) = (p, none))
    (hread' : readFiles d ⟨[], known⟩ (files₁ ++ g :: files₂) = (q, none))
    (hg : FileApart (fun _ => False) d g)
    (hfiles : ∀ path ∈ files₁ ++ files₂, FileApart (· ∈ declaredWords d g) d path) :
    TwinsOn (fun n => n ∉ declaredNames d g) p q where
  left := (built_readFiles (.start known) hread).wellScoped
  right := (built_readFiles (.start known) hread').wellScoped
  agrees := agreesOn_insert hread hread'
  confined := confined_insert hread hg hfiles

theorem elements_insert_of_apart (hg : FileApart (fun _ => False) d g)
    (hfiles : ∀ path ∈ files₁ ++ files₂, FileApart (· ∈ declaredWords d g) d path)
    {es : List Element} (h : (elements d (ofFiles (files₁ ++ g :: files₂) known)).1 = .ok es) :
    ∃ block : Path → List Element,
      (∀ path ∈ files₁ ++ g :: files₂, ∀ e ∈ block path, e.StandsIn path.toText) ∧
      es = files₁.flatMap block ++ block g ++ files₂.flatMap block ∧
      (elements d (ofFiles (files₁ ++ files₂) known)).1 =
        .ok (files₁.flatMap block ++ files₂.flatMap block) := by
  obtain ⟨q, hread', hanswer⟩ := elements_ok_iff.mp h
  have hmem : ∀ path ∈ files₁ ++ files₂, path ∈ files₁ ++ g :: files₂ := by
    intro path hpath
    exact ((List.sublist_cons_self g files₂).append_left files₁).subset hpath
  obtain ⟨p, hread⟩ : ∃ p, readFiles d ⟨[], known⟩ (files₁ ++ files₂) = (p, none) := by
    apply (readFiles_iff d _ _).mpr
    intro path hpath
    exact (readFiles_iff d _ _).mp ⟨q, hread'⟩ path (hmem path hpath)
  have htwins := twinsOn_insert hread hread' hg hfiles
  obtain ⟨value, hvalue'⟩ := Program.exists_value htwins.right
    fun t ht => Program.ok_of_answer_elements htwins.right hanswer ht
  have hvalue : ∀ t ∈ p.types, p.typeAnswer t = .ok (value t.unnumbered) := by
    intro t ht
    obtain ⟨path, hpath, hdeclared⟩ := (exists_type_iff hread _).mp ⟨t, ht, rfl⟩
    obtain ⟨t', ht', hsame⟩ := (exists_type_iff hread' _).mpr ⟨path, hmem path hpath, hdeclared⟩
    rw [htwins.typeAnswer ht ht' hsame.symm, hvalue' t' ht', hsame]
  refine ⟨fun path => (declared d path).flatMap fun t => value t.unnumbered, ?_, ?_, ?_⟩
  · intro path hpath e he
    obtain ⟨u, hu, he⟩ := List.mem_flatMap.mp he
    exact standsIn_of_mem hread' hvalue' hpath hu he
  · rw [elements_eq_blocks hread' hvalue'] at hanswer
    rw [← Except.ok.inj hanswer, List.flatMap_append, List.flatMap_cons, List.append_assoc]
  · refine elements_ok_iff.mpr ⟨p, hread, ?_⟩
    rw [elements_eq_blocks hread hvalue, List.flatMap_append]

end SourceReader

end LookupGen
