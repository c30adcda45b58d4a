import LookupGen.Proofs.Program.Blocks
import LookupGen.Proofs.Program.Origins
import LookupGen.SourceReader

/-!
# Files in any order

The elements of source files come in one block for each file, and as long as no two files declare a
type of one name, the block of a file is the same in whatever order the files are read.

This module does NOT say what happens where two files declare one name.
-/

namespace LookupGen

open EvalM (answer)

section Apart

variable {α β κ : Type} {f : α → List β} {key : β → κ}

/-- No two of the lists have a key in common. -/
def KeysApart (f : α → List β) (key : β → κ) (as : List α) : Prop :=
  as.Pairwise fun a b => ∀ k ∈ (f a).map key, k ∉ (f b).map key

theorem keysApart_perm {as bs : List α} (h : as.Perm bs) :
    KeysApart f key as ↔ KeysApart f key bs :=
  h.pairwise_iff fun hab k hb ha => hab k ha hb

variable [DecidableEq κ]

theorem find?_key_eq_none {a b : α} (h : ∀ k ∈ (f a).map key, k ∉ (f b).map key) (k : κ) :
    (f a).reverse.find? (fun x => decide (key x = k)) = none ∨
      (f b).reverse.find? (fun x => decide (key x = k)) = none := by
  simp only [List.find?_eq_none, List.mem_reverse, decide_eq_true_eq]
  by_cases ha : k ∈ (f a).map key
  · right
    intro x hx hkey
    exact h k ha (hkey ▸ List.mem_map_of_mem hx)
  · left
    intro x hx hkey
    exact ha (hkey ▸ List.mem_map_of_mem hx)

theorem find?_flatMap_perm {as bs : List α} (hperm : as.Perm bs) (h : KeysApart f key as) (k : κ) :
    (as.flatMap f).reverse.find? (fun x => decide (key x = k)) =
      (bs.flatMap f).reverse.find? (fun x => decide (key x = k)) := by
  -- By induction on the permutation: where two lists change places, only one of them has the key.
  induction hperm with
  | nil => rfl
  | cons a _ ih =>
    simp only [List.flatMap_cons, List.reverse_append, List.find?_append]
    rw [ih (List.pairwise_cons.mp h).2]
  | swap a b rest =>
    have hba := (List.pairwise_cons.mp h).1 a List.mem_cons_self
    simp only [List.flatMap_cons, List.reverse_append, List.find?_append, Option.or_assoc]
    rcases find?_key_eq_none hba k with hnone | hnone
    · rw [hnone, Option.none_or, Option.or_none]
    · rw [hnone, Option.none_or, Option.or_none]
  | trans hfirst _ ihFirst ihSecond =>
    rw [ihFirst h, ihSecond ((keysApart_perm hfirst).mp h)]

end Apart

namespace Program

theorem type?_unnumbered (p : Program) (n : Name) :
    (p.type? n).map DeclaredType.unnumbered =
      (p.types.map DeclaredType.unnumbered).reverse.find? fun t => decide (t.name = n) := by
  unfold type?
  rw [← List.map_reverse, List.find?_map]
  rfl

theorem fileScope_path {path : Text} {items : List Java.Item}
    {c : FileScope × List (Name × Java.TypeDeclaration)} (h : fileScope path items = .ok c) :
    c.1.path = path := by
  refine ok_foldlM (P := fun c => c.1.path = path) ?_ ?_ h
  · rintro ⟨file, types⟩ item - c hfile hc
    cases item with
    | package name =>
      obtain ⟨name, -, hc⟩ := bind_eq_ok.mp hc
      obtain rfl := Except.ok.inj hc
      exact hfile
    | «import» form name =>
      obtain ⟨name, -, hc⟩ := bind_eq_ok.mp hc
      obtain rfl := Except.ok.inj hc
      cases form <;> exact hfile
    | type d =>
      obtain ⟨kind, m, name, line, members⟩ := d
      obtain rfl := Except.ok.inj hc
      exact hfile
  · rfl

end Program

namespace SourceReader

variable {d : Disk} {p q : Program} {path : Path} {files files' : List Path}

/-- What a file says, whatever program it is added to. -/
def contents (d : Disk) (path : Path) :
    Except SourceError (FileScope × List (Name × Java.TypeDeclaration)) :=
  match d.read path with
  | .error e => .error (.unreadable path e)
  | .ok content =>
    match Java.parseFile content with
    | .error line => .error (.malformed path line)
    | .ok items => (Program.fileScope path.toText items).mapError .undecodable

def declared (d : Disk) (path : Path) : List DeclaredType :=
  match readFile d ⟨[], []⟩ path with
  | .ok p => p.types
  | .error _ => []

/-- The qualified names of the types that a file declares, nested ones included. -/
def declaredNames (d : Disk) (path : Path) : List Name := (declared d path).map (·.name)

theorem readFile_eq (d : Disk) (p : Program) (path : Path) :
    readFile d p path = (contents d path).map fun c =>
      { p with types := p.types ++ Program.fileTypes c.1 p.types.length c.2 } := by
  unfold readFile contents
  cases d.read path with
  | error e => rfl
  | ok content =>
    simp only
    cases Java.parseFile content with
    | error line => rfl
    | ok items =>
      simp only [Program.addFile]
      cases Program.fileScope path.toText items with
      | error e => rfl
      | ok c => rfl

theorem readFile_eq_ok (h : readFile d p path = .ok q) :
    ∃ c, contents d path = .ok c ∧
      q = { p with types := p.types ++ Program.fileTypes c.1 p.types.length c.2 } := by
  rw [readFile_eq] at h
  obtain ⟨c, hcontents, rfl⟩ := map_eq_ok.mp h
  exact ⟨c, hcontents, rfl⟩

theorem exists_items {c : FileScope × List (Name × Java.TypeDeclaration)}
    (h : contents d path = .ok c) : ∃ content items, d.read path = .ok content ∧
      Java.parseFile content = .ok items ∧ Program.fileScope path.toText items = .ok c := by
  unfold contents at h
  split at h
  · cases h
  · rename_i content hread
    split at h
    · cases h
    · rename_i items hparse
      exact ⟨content, items, hread, hparse, mapError_eq_ok.mp h⟩

theorem contents_path {c : FileScope × List (Name × Java.TypeDeclaration)}
    (h : contents d path = .ok c) : c.1.path = path.toText := by
  obtain ⟨-, items, -, -, hscope⟩ := exists_items h
  exact Program.fileScope_path hscope

theorem declared_eq {c : FileScope × List (Name × Java.TypeDeclaration)}
    (h : contents d path = .ok c) : declared d path = Program.fileTypes c.1 0 c.2 := by
  unfold declared
  rw [readFile_eq, h]
  rfl

theorem contents_of_mem_declared {t : DeclaredType} (ht : t ∈ declared d path) :
    ∃ c, contents d path = .ok c ∧ t ∈ Program.fileTypes c.1 0 c.2 := by
  cases hcontents : contents d path with
  | error e =>
    unfold declared at ht
    rw [readFile_eq, hcontents] at ht
    cases ht
  | ok c => exact ⟨c, rfl, declared_eq hcontents ▸ ht⟩

theorem file_of_mem_declared {t : DeclaredType} (ht : t ∈ declared d path) :
    t.file.path = path.toText := by
  obtain ⟨c, hcontents, ht⟩ := contents_of_mem_declared ht
  rw [(Layout.fileTypes c.1 0 c.2).file_eq t ht, contents_path hcontents]

/-- What a file adds to a program does not depend on the program, numbers aside. -/
theorem readFile_types (h : readFile d p path = .ok q) :
    q.known = p.known ∧ q.types.map DeclaredType.unnumbered =
      p.types.map DeclaredType.unnumbered ++ (declared d path).map DeclaredType.unnumbered := by
  obtain ⟨c, hcontents, rfl⟩ := readFile_eq_ok h
  refine ⟨rfl, ?_⟩
  rw [declared_eq hcontents, List.map_append, Program.fileTypes_unnumbered c.1 _ 0]

theorem built_readFile (hp : p.Built) (h : readFile d p path = .ok q) : q.Built := by
  unfold readFile at h
  split at h
  · cases h
  · split at h
    · cases h
    · split at h
      · cases h
      · rename_i hadd
        obtain rfl := Except.ok.inj h
        exact hp.addFile hadd

theorem built_readFiles (hp : p.Built) (h : readFiles d p files = (q, none)) : q.Built := by
  induction files generalizing p with
  | nil =>
    obtain rfl := (Prod.mk.inj h).1
    exact hp
  | cons path rest ih =>
    rw [readFiles] at h
    split at h
    · cases h
    · rename_i hread
      exact ih (built_readFile hp hread) h

theorem readFiles_types (h : readFiles d p files = (q, none)) :
    q.known = p.known ∧ q.types.map DeclaredType.unnumbered =
      p.types.map DeclaredType.unnumbered ++
        (files.flatMap (declared d)).map DeclaredType.unnumbered := by
  induction files generalizing p with
  | nil =>
    obtain rfl := (Prod.mk.inj h).1
    simp
  | cons path rest ih =>
    rw [readFiles] at h
    split at h
    · cases h
    · rename_i hread
      obtain ⟨hknown, htypes⟩ := readFile_types hread
      obtain ⟨hknownAll, htypesAll⟩ := ih h
      refine ⟨hknownAll.trans hknown, ?_⟩
      rw [htypesAll, htypes, List.flatMap_cons, List.map_append, List.append_assoc]

theorem readFiles_iff (d : Disk) (p : Program) (files : List Path) :
    (∃ q, readFiles d p files = (q, none)) ↔ ∀ path ∈ files, ∃ c, contents d path = .ok c := by
  induction files generalizing p with
  | nil =>
    constructor
    · intro _ path hpath
      cases hpath
    · exact fun _ => ⟨p, rfl⟩
  | cons path rest ih =>
    rw [readFiles, readFile_eq, List.forall_mem_cons]
    cases hcontents : contents d path with
    | error e =>
      constructor
      · rintro ⟨q, h⟩
        cases h
      · rintro ⟨⟨c, hc⟩, -⟩
        cases hc
    | ok c =>
      rw [← ih]
      exact ⟨fun h => ⟨⟨c, rfl⟩, h⟩, fun h => h.2⟩

theorem exists_readFiles_perm (p' : Program) (hperm : files.Perm files')
    (h : readFiles d p files = (q, none)) : ∃ q', readFiles d p' files' = (q', none) := by
  apply (readFiles_iff d p' files').mpr
  intro path hpath
  exact (readFiles_iff d p files).mp ⟨q, h⟩ path (hperm.mem_iff.mpr hpath)

theorem elements_ok_iff_of_empty {r : SourceReader} (hfound : r.found = none)
    (hevaluation : r.evaluation = .empty) {es : List Element} :
    (elements d r).1 = .ok es ↔
      ∃ p, readFiles d r.program r.files = (p, none) ∧ answer p.elements .empty = .ok es := by
  unfold elements
  rw [hfound, hevaluation]
  simp only
  rcases readFiles d r.program r.files with ⟨p, _ | e⟩
  · simp only [Prod.mk.injEq, and_true, exists_eq_left']
    change _ ↔ (p.elements.run.run .empty).1 = .ok es
    rcases p.elements.run.run .empty with ⟨_ | es', s⟩
    · simp
    · simp
  · simp

theorem elements_ok_iff {known : List Name} {es : List Element} :
    (elements d (ofFiles files known)).1 = .ok es ↔
      ∃ p, readFiles d ⟨[], known⟩ files = (p, none) ∧ answer p.elements .empty = .ok es :=
  elements_ok_iff_of_empty rfl rfl

section Orders

variable {known : List Name}

theorem types_of_readFiles (h : readFiles d ⟨[], known⟩ files = (p, none)) :
    p.types.map DeclaredType.unnumbered =
      (files.flatMap (declared d)).map DeclaredType.unnumbered :=
  (readFiles_types h).2.trans (List.nil_append _)

theorem twins_of_perm (hperm : files.Perm files')
    (hapart : KeysApart (declared d) DeclaredType.name files)
    (h : readFiles d ⟨[], known⟩ files = (p, none))
    (h' : readFiles d ⟨[], known⟩ files' = (q, none)) : p.Twins q := by
  have hknown : p.known = q.known := (readFiles_types h).1.trans (readFiles_types h').1.symm
  refine ⟨(built_readFiles (.start known) h).wellScoped,
    (built_readFiles (.start known) h').wellScoped, hknown, ?_⟩
  intro n
  rw [p.type?_unnumbered, q.type?_unnumbered, types_of_readFiles h, types_of_readFiles h',
    ← List.map_reverse, ← List.map_reverse, List.find?_map, List.find?_map]
  exact congrArg (Option.map DeclaredType.unnumbered) (find?_flatMap_perm hperm hapart n)

theorem exists_type_iff (h : readFiles d ⟨[], known⟩ files = (p, none)) (u : DeclaredType) :
    (∃ t ∈ p.types, t.unnumbered = u) ↔
      ∃ path ∈ files, ∃ t ∈ declared d path, t.unnumbered = u := by
  rw [← List.mem_map, types_of_readFiles h, List.mem_map]
  constructor
  · rintro ⟨t, ht, rfl⟩
    obtain ⟨path, hpath, ht⟩ := List.mem_flatMap.mp ht
    exact ⟨path, hpath, t, ht, rfl⟩
  · rintro ⟨path, hpath, t, ht, rfl⟩
    exact ⟨t, List.mem_flatMap.mpr ⟨path, hpath, ht⟩, rfl⟩

theorem elements_eq_blocks {C : DeclaredType → List Element}
    (h : readFiles d ⟨[], known⟩ files = (p, none))
    (hanswers : ∀ t ∈ p.types, p.typeAnswer t = .ok (C t.unnumbered)) :
    answer p.elements .empty =
      .ok (files.flatMap fun path => (declared d path).flatMap fun t => C t.unnumbered) := by
  rw [Program.answer_elements (built_readFiles (.start known) h).wellScoped, mapM_of_ok hanswers,
    ← List.flatMap_assoc, ← List.flatMap_map, ← types_of_readFiles h, List.flatMap_map]
  rfl

theorem standsIn_of_mem (hread : readFiles d ⟨[], known⟩ files = (p, none))
    {value : DeclaredType → List Element}
    (hvalue : ∀ t ∈ p.types, p.typeAnswer t = .ok (value t.unnumbered)) (hpath : path ∈ files)
    {u : DeclaredType} (hu : u ∈ declared d path) {e : Element} (he : e ∈ value u.unnumbered) :
    e.StandsIn path.toText := by
  obtain ⟨t, ht, hsame⟩ := (exists_type_iff hread u.unnumbered).mpr ⟨path, hpath, u, hu, rfl⟩
  rw [← hsame] at he
  have hstands := p.yields_typeElements t _ _ (hvalue t ht) e he
  rwa [(DeclaredType.parts_eq hsame).1, file_of_mem_declared hu] at hstands

/-- In whatever order the files are read, the types of one name are the same, numbers aside, so each
type comes to the same elements. -/
theorem elements_perm (hperm : files.Perm files')
    (hapart : files.Pairwise fun a b => ∀ n ∈ declaredNames d a, n ∉ declaredNames d b)
    {es : List Element} (h : (elements d (ofFiles files known)).1 = .ok es) :
    ∃ block : Path → List Element,
      (∀ path ∈ files, ∀ e ∈ block path, e.StandsIn path.toText) ∧
      es = files.flatMap block ∧
      (elements d (ofFiles files' known)).1 = .ok (files'.flatMap block) := by
  obtain ⟨p, hread, hanswer⟩ := elements_ok_iff.mp h
  obtain ⟨q, hread'⟩ := exists_readFiles_perm ⟨[], known⟩ hperm hread
  have htwins := twins_of_perm hperm hapart hread hread'
  have hok : ∀ t ∈ p.types, ∃ es, p.typeAnswer t = .ok es :=
    fun t ht => Program.ok_of_answer_elements htwins.left hanswer ht
  have hmem : ∀ t' ∈ q.types, ∃ t ∈ p.types, t.unnumbered = t'.unnumbered := by
    intro t' ht'
    obtain ⟨path, hpath, hdeclared⟩ := (exists_type_iff hread' _).mp ⟨t', ht', rfl⟩
    exact (exists_type_iff hread _).mpr ⟨path, hperm.mem_iff.mpr hpath, hdeclared⟩
  obtain ⟨value, hvalue, hvalue'⟩ := htwins.exists_values hok hmem
  refine ⟨fun path => (declared d path).flatMap fun t => value t.unnumbered, ?_, ?_, ?_⟩
  · intro path hpath e he
    obtain ⟨u, hu, he⟩ := List.mem_flatMap.mp he
    exact standsIn_of_mem hread hvalue hpath hu he
  · rw [elements_eq_blocks hread hvalue] at hanswer
    exact (Except.ok.inj hanswer).symm
  · exact elements_ok_iff.mpr ⟨q, hread', elements_eq_blocks hread' hvalue'⟩

end Orders

/-- Two files that each use a constant of the other. -/
def tangled : Disk :=
  ⟨.dir [("A.java", .file (content "class A\x7bstatic final String X=B.Y,Z=\"z\";\x7d")),
    ("B.java", .file (content "class B\x7bstatic final String Y=\"y\"+A.Z;\x7d"))], []⟩
where
  content (s : String) : Bytes := s.toList.map fun c => UInt8.ofNat c.toNat

theorem elements_perm_tangled :
    let a : Path := .ofText "A.java"
    let b : Path := .ofText "B.java"
    [a, b].Perm [b, a] ∧
    ([a, b].Pairwise fun a b => ∀ n ∈ declaredNames tangled a, n ∉ declaredNames tangled b) ∧
    ∃ es, (elements tangled (ofFiles [a, b] [])).1 = .ok es ∧
      (es.flatMap fun e => e.name :: e.fields.filterMap fun f => f.constant.bind Value.text?) =
        ["A", "yz", "z", "B", "yz"] ∧
      ∃ block : Path → List Element,
        (∀ path ∈ [a, b], ∀ e ∈ block path, e.StandsIn path.toText) ∧
        es = block a ++ block b ∧
        (elements tangled (ofFiles [b, a] [])).1 = .ok (block b ++ block a) := by
  intro a b
  have hperm : [a, b].Perm [b, a] := .swap b a []
  have hapart : [a, b].Pairwise fun a b =>
      ∀ n ∈ declaredNames tangled a, n ∉ declaredNames tangled b := by
    simp only [List.pairwise_cons, List.mem_singleton, forall_eq]
    refine ⟨by decide +kernel, by simp, .nil⟩
  have hfound : ((elements tangled (ofFiles [a, b] [])).1.toOption.map fun es =>
      es.flatMap fun e => e.name :: e.fields.filterMap fun f => f.constant.bind Value.text?) =
        some (["A", "yz", "z", "B", "yz"] : List Text) := by
    decide +kernel
  cases h : (elements tangled (ofFiles [a, b] [])).1 with
  | error e =>
    rw [h] at hfound
    cases hfound
  | ok es =>
    rw [h] at hfound
    obtain ⟨block, hstands, hes, hes'⟩ := elements_perm hperm hapart h
    simp only [List.flatMap_cons, List.flatMap_nil, List.append_nil] at hes hes'
    exact ⟨hperm, hapart, es, rfl, Option.some.inj hfound, block, hstands, hes, hes'⟩

end SourceReader

end LookupGen
