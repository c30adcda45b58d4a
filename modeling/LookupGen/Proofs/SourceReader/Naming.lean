import LookupGen.Proofs.Java.Readable
import LookupGen.Proofs.Program.Parts
import LookupGen.Proofs.SourceReader.Insertion

/-!
# Ways to name a constant

A constant of a type in a package can be named by the qualified name of its type, by its simple name
where a static import brings that in, or by the simple name of its type where that is imported. All
of them come to the field as the type declares it, and so to one constant.
-/

namespace LookupGen

open Java (Item ImportForm Expr)

def Java.imports (form : ImportForm) (items : List Item) : List Name :=
  items.filterMap fun
    | .import other (.ok name) => if other = form then some name else none
    | _ => none

open Java (imports)

/-- The last of some names with a given last segment. -/
def LastNamed (n : Name) (names : List Name) (name : Name) : Prop :=
  name.simple = n ∧ ∃ before after, names = before ++ name :: after ∧ ∀ m ∈ after, m.simple ≠ n

namespace Program

structure Imports (items : List Item) (file : FileScope) : Prop where
  single : file.singleImports = (imports .single items).map fun n => (n.simple, n)
  static : file.staticImports = (imports .staticSingle items).map fun n => (n.simple, n.package)
  staticOnDemand : file.staticOnDemandImports = imports .staticOnDemand items

theorem Imports.addImport {done : List Item} {file : FileScope} (h : Imports done file)
    (form : ImportForm) (name : Name) :
    Imports (done ++ [.import form (.ok name)]) (file.addImport form name) := by
  obtain ⟨hsingle, hstatic, hstaticOnDemand⟩ := h
  cases form with
  | single | onDemand | staticSingle | staticOnDemand =>
    constructor <;> simp [imports, FileScope.addImport, hsingle, hstatic, hstaticOnDemand]

theorem Imports.skip {done : List Item} {item : Item} {file file' : FileScope}
    (h : Imports done file) (hitem : ∀ form, imports form [item] = [])
    (hfile : file'.singleImports = file.singleImports ∧ file'.staticImports = file.staticImports ∧
      file'.staticOnDemandImports = file.staticOnDemandImports) :
    Imports (done ++ [item]) file' := by
  have hsame (form : ImportForm) : imports form (done ++ [item]) = imports form done := by
    have happend : imports form (done ++ [item]) = imports form done ++ imports form [item] :=
      List.filterMap_append
    rw [happend, hitem, List.append_nil]
  obtain ⟨hsingle, hstatic, hstaticOnDemand⟩ := hfile
  constructor
  · rw [hsame, hsingle, h.single]
  · rw [hsame, hstatic, h.static]
  · rw [hsame, hstaticOnDemand, h.staticOnDemand]

theorem imports_of_fileScope {path : Text} {items : List Item}
    {c : FileScope × List (Name × Java.TypeDeclaration)} (h : fileScope path items = .ok c) :
    Imports items c.1 := by
  have hstart : Imports [] (FileScope.ofPath path) := ⟨rfl, rfl, rfl⟩
  refine ok_foldlM_append (P := fun done c => Imports done c.1) ?_ hstart h
  rintro done ⟨file, types⟩ item - c hdone hc
  cases item with
  | package name =>
    obtain ⟨name, -, hc⟩ := bind_eq_ok.mp hc
    obtain rfl := Except.ok.inj hc
    exact hdone.skip (fun _ => rfl) ⟨rfl, rfl, rfl⟩
  | «import» form name =>
    obtain ⟨name, rfl, hc⟩ := bind_eq_ok.mp hc
    obtain rfl := Except.ok.inj hc
    exact hdone.addImport form name
  | type d =>
    obtain ⟨kind, m, name, line, members⟩ := d
    obtain rfl := Except.ok.inj hc
    exact hdone.skip (fun _ => rfl) ⟨rfl, rfl, rfl⟩

theorem lookupLast_of_lastNamed {n name : Name} {names : List Name} (h : LastNamed n names name)
    (value : Name → Name) :
    FileScope.lookupLast n (names.map fun m => (m.simple, value m)) = some (value name) := by
  obtain ⟨rfl, before, after, rfl, hafter⟩ := h
  unfold FileScope.lookupLast
  rw [List.lookup_eq_some_iff]
  refine ⟨(after.map fun m => (m.simple, value m)).reverse,
    (before.map fun m => (m.simple, value m)).reverse, by simp, ?_⟩
  intro e he
  obtain ⟨m, hm, rfl⟩ := List.mem_map.mp (List.mem_reverse.mp he)
  exact bne_iff_ne.mpr (Ne.symm (hafter m hm))

theorem lookupLast_eq_none {n : Name} {names : List Name} (h : ∀ m ∈ names, m.simple ≠ n)
    (value : Name → Name) :
    FileScope.lookupLast n (names.map fun m => (m.simple, value m)) = none := by
  unfold FileScope.lookupLast
  rw [List.lookup_eq_none_iff]
  intro e he
  obtain ⟨m, hm, rfl⟩ := List.mem_map.mp (List.mem_reverse.mp he)
  exact bne_iff_ne.mpr (Ne.symm (h m hm))

/-- The ways in which a place in a file with given items names the field `n` of the type `Q`. -/
inductive Names (p : Program) (items : List Item) (site : Site) (Q n : Name) : Expr → Prop
  /-- By the qualified name of a type that is not alone in no package, if the first segment means no
  type at the place. -/
  | qualified (hdot : CodePoint.ofChar '.' ∈ Q) (h : p.simpleType? site Q.head = none) :
      Names p items site Q n (.field (.ok Q) n)
  /-- By the simple name, if the last static import of the name is that of the field. -/
  | static (hscopes : ∀ s ∈ site.scopes, s.field? n = none)
      (h : LastNamed n (imports .staticSingle items) (Text.join [Q, ".", n])) :
      Names p items site Q n (.name n)
  /-- By the simple name, if no static import of the name stands against it, and the type is the
  first of those with a field of the name whose fields are imported on demand. -/
  | staticOnDemand (hscopes : ∀ s ∈ site.scopes, s.field? n = none)
      (hnone : ∀ m ∈ imports .staticSingle items, m.simple ≠ n) {before after : List Name}
      (h : imports .staticOnDemand items = before ++ Q :: after)
      (hbefore : ∀ m ∈ before, ∀ u, p.type? m = some u → u.field? n = none) :
      Names p items site Q n (.name n)
  /-- By the simple name of the type, if the last import of that name is that of the type, and no
  type around the place has the name or a member type of it. -/
  | imported (hscopes : ∀ s ∈ site.scopes, s.simpleName ≠ Q.simple ∧ Q.simple ∉ s.memberTypes)
      (h : LastNamed Q.simple (imports .single items) Q) :
      Names p items site Q n (.field (.ok Q.simple) n)

variable {p : Program} {site : Site} {Q n : Name} {t : DeclaredType} {f : FieldRef}

theorem typeInScopes_eq_none {scopes : List TypeScope}
    (h : ∀ s ∈ scopes, s.simpleName ≠ n ∧ n ∉ s.memberTypes) : typeInScopes n scopes = none := by
  induction scopes with
  | nil => rfl
  | cons s outer ih =>
    obtain ⟨⟨hname, hmember⟩, houter⟩ := List.forall_mem_cons.mp h
    rw [typeInScopes, if_neg hname, if_neg (by simpa using hmember), ih houter]

theorem fieldInScopes_eq_none {file : FileScope} {scopes : List TypeScope}
    (h : ∀ s ∈ scopes, s.field? n = none) : fieldInScopes file n scopes = none := by
  induction scopes with
  | nil => rfl
  | cons s outer ih =>
    obtain ⟨hs, houter⟩ := List.forall_mem_cons.mp h
    rw [fieldInScopes, hs, ih houter]

theorem resolveType_of_simpleType? {T : Name} (hT : CodePoint.ofChar '.' ∉ T)
    (h : p.simpleType? site T = some Q) : p.resolveType site T = Q := by
  unfold resolveType
  rw [Text.splitFirst_of_not_mem hT]
  simp only [h, Option.getD_some]

/-- A dotted name whose first segment means nothing stands for itself. -/
theorem resolveType_of_head (hdot : CodePoint.ofChar '.' ∈ Q) (hsimple : Q.simple ≠ [])
    (h : p.simpleType? site Q.head = none) : p.resolveType site Q = Q := by
  unfold resolveType
  unfold Name.head at h
  cases hsplit : Text.splitFirst '.' Q with
  | none => exact absurd hdot (Text.splitFirst_eq_none hsplit)
  | some parts =>
    obtain ⟨head, rest⟩ := parts
    rw [hsplit] at h
    have hrest : rest.isEmpty = false := by
      refine Bool.eq_false_iff.mpr fun hempty => hsimple ?_
      rw [(Text.splitFirst_eq_some hsplit).1, List.isEmpty_iff.mp hempty, Name.simple_append]
      rfl
    simp only at h ⊢
    rw [h, hrest]
    rfl

theorem constantAt_field {owner : Name} (ht : p.type? Q = some t) (hf : t.field? n = some f)
    (howner : p.resolveType site owner = Q) :
    p.constantAt site (.field (.ok owner) n) = p.constant f := by
  have hfield : p.fieldOf? site owner n = some f := by
    unfold fieldOf?
    rw [howner, ht]
    exact hf
  unfold constantAt
  simp only [evaluate, written, pure_bind, hfield]

theorem constantAt_name (h : p.field? site n = some f) :
    p.constantAt site (.name n) = p.constant f := by
  unfold constantAt
  simp only [evaluate, h]

theorem constantAt_own (hf : t.field? n = some f) :
    p.constantAt t.site (.name n) = p.constant f := by
  apply constantAt_name
  unfold DeclaredType.field? at hf
  obtain ⟨g, hg, rfl⟩ := Option.map_eq_some_iff.mp hf
  unfold Program.field? DeclaredType.site
  rw [fieldInScopes, hg]

theorem field?_of_static (hscopes : ∀ s ∈ site.scopes, s.field? n = none)
    (himport : FileScope.lookupLast n site.file.staticImports = some Q)
    (ht : p.type? Q = some t) (hf : t.field? n = some f) : p.field? site n = some f := by
  unfold Program.field?
  rw [fieldInScopes_eq_none hscopes, himport]
  simp only [Option.bind_eq_bind, Option.bind_some, ht, hf]

theorem field?_of_staticOnDemand (hscopes : ∀ s ∈ site.scopes, s.field? n = none)
    (hnone : FileScope.lookupLast n site.file.staticImports = none) {before after : List Name}
    (himports : site.file.staticOnDemandImports = before ++ Q :: after)
    (hbefore : ∀ m ∈ before, ∀ u, p.type? m = some u → u.field? n = none)
    (ht : p.type? Q = some t) (hf : t.field? n = some f) : p.field? site n = some f := by
  unfold Program.field?
  rw [fieldInScopes_eq_none hscopes, hnone, himports]
  have hskip : (before.findSome? fun owner => do
      let t ← p.type? owner
      t.field? n) = none := by
    rw [List.findSome?_eq_none_iff]
    intro m hm
    cases hu : p.type? m with
    | none => rfl
    | some u => exact hbefore m hm u hu
  simp only [Option.bind_eq_bind, Option.bind_none] at hskip ⊢
  rw [List.findSome?_append, hskip, Option.none_or, List.findSome?_cons, ht]
  simp only [Option.bind_some, hf]

variable {items : List Item} {e : Expr}

theorem constantAt_of_names (he : Names p items site Q n e) (hfile : Imports items site.file)
    (hn : CodePoint.ofChar '.' ∉ n) (hsimple : Q.simple.IsWord) (ht : p.type? Q = some t)
    (hf : t.field? n = some f) : p.constantAt site e = p.constant f := by
  cases he with
  | qualified hdot h =>
    exact constantAt_field ht hf (resolveType_of_head hdot hsimple.ne_nil h)
  | static hscopes h =>
    apply constantAt_name
    refine field?_of_static hscopes ?_ ht hf
    rw [hfile.static, lookupLast_of_lastNamed h, Name.join_dot, Name.package_append Q hn]
  | staticOnDemand hscopes hnone h hbefore =>
    apply constantAt_name
    refine field?_of_staticOnDemand hscopes ?_ (hfile.staticOnDemand.trans h) hbefore ht hf
    rw [hfile.static, lookupLast_eq_none hnone]
  | imported hscopes h =>
    refine constantAt_field ht hf (resolveType_of_simpleType? hsimple.dot_not_mem ?_)
    have himport : FileScope.lookupLast Q.simple site.file.singleImports = some Q := by
      rw [hfile.single]
      exact lookupLast_of_lastNamed h id
    rw [simpleType?, typeInScopes_eq_none hscopes, typeInFile, himport]

end Program

namespace SourceReader

open Program (Names)

variable {d : Disk} {p : Program} {files : List Path} {known : List Name}

theorem named_of_readFiles (hread : readFiles d ⟨[], known⟩ files = (p, none)) {t : DeclaredType}
    (ht : t ∈ p.types) : t.scope.Named := by
  obtain ⟨path, -, u, hu, hsame⟩ := (exists_type_iff hread _).mp ⟨t, ht, rfl⟩
  have hapart := (apart_of_mem_declared (fileApart_of_not_mem (S := fun _ => False) nofun) hu).1
  rw [← DeclaredType.apart_unnumbered, hsame, DeclaredType.apart_unnumbered] at hapart
  exact hapart.scopes t.scope List.mem_cons_self

theorem isWord_of_field? (hread : readFiles d ⟨[], known⟩ files = (p, none)) {t : DeclaredType}
    (ht : t ∈ p.types) {n : Name} {f : FieldRef} (hf : t.field? n = some f) : n.IsWord := by
  have hholds : (readFiles d ⟨[], known⟩ files).1.Holds .lettered := holds_readFiles nofun
    fun path _ content items _ hparse => Java.holds_of_parseFile (Java.lettered_of content) hparse
  rw [hread] at hholds
  obtain ⟨g, hg, rfl⟩ := Option.map_eq_some_iff.mp hf
  have hname : g.name = n := by simpa using List.find?_some hg
  rw [← hname]
  exact ((hholds t ht).fields g (List.mem_of_find?_eq_some hg)).name

/-- However a field is named at a place, its constant is asked for, which is that of its name where
the type declares it. -/
theorem constantAt_eq_of_names (hread : readFiles d ⟨[], known⟩ files = (p, none)) {Q n : Name}
    {t : DeclaredType} {f : FieldRef} (ht : p.type? Q = some t) (hf : t.field? n = some f)
    {path : Text} {items : List Item} {types : List (Name × Java.TypeDeclaration)} {site : Site}
    (hfile : Program.fileScope path items = .ok (site.file, types)) {e : Expr}
    (he : Names p items site Q n e) :
    p.constantAt site e = p.constant f ∧ p.constantAt t.site (.name n) = p.constant f := by
  have hmem := Program.mem_types_of_type? ht
  have hname : t.name = Q := by simpa using List.find?_some ht
  have hnamed := named_of_readFiles hread hmem
  have hword : Q.simple.IsWord := hname ▸ hnamed.simple ▸ hnamed.word
  have hn := (isWord_of_field? hread hmem hf).dot_not_mem
  exact ⟨Program.constantAt_of_names he (Program.imports_of_fileScope hfile) hn hword ht hf,
    Program.constantAt_own hf⟩

/-- A constant of a nested type, a file that imports the type and the constant, and a file that
imports the constants of two types on demand. -/
def importing : Disk :=
  ⟨.dir [("K.java", .file (tangled.content
      "package p;class K\x7bstatic class I\x7bstatic final String n=\"v\";\x7d\x7d")),
    ("U.java", .file (tangled.content
      "package q;import p.K.I;import static r.R.n;import static p.K.I.n;class U\x7b\x7d")),
    ("W.java", .file (tangled.content
      "import static p.K.*;import static p.K.I.*;class W\x7b\x7d"))], []⟩

def importingFiles : List Path :=
  [.ofText "K.java", .ofText "U.java", .ofText "W.java"]

/-- A body that has nothing in common with the constant or its type. -/
def plainScope : TypeScope := ⟨1, "U", "q.U", ["V"], []⟩

/-- What has to be looked up for the example, in one evaluation. -/
def importingChecked : Bool :=
  match readFiles importing ⟨[], []⟩ importingFiles, importing.read (.ofText "U.java"),
    importing.read (.ofText "W.java") with
  | (p, none), .ok uContent, .ok wContent =>
    match Java.parseFile uContent, Java.parseFile wContent with
    | .ok u, .ok w =>
      match Program.fileScope "U.java" u, Program.fileScope "W.java" w with
      | .ok (file, _), .ok _ =>
        ((p.type? "p.K.I").bind (·.field? "n")).isSome &&
        ((p.type? "p.K").bind (·.field? "n")).isNone &&
        (p.simpleType? ⟨file, [plainScope]⟩ "p").isNone &&
        decide (imports .single u = ["p.K.I"]) &&
        decide (imports .staticSingle u = ["r.R.n", "p.K.I.n"]) &&
        decide (imports .staticSingle w = []) &&
        decide (imports .staticOnDemand w = ["p.K", "p.K.I"])
      | _, _ => false
    | _, _ => false
  | _, _, _ => false

theorem importingChecked_eq : importingChecked = true := by decide +kernel

theorem constantAt_eq_of_names_importing :
    ∃ p t f u w file file' types types',
      readFiles importing ⟨[], []⟩ importingFiles = (p, none) ∧ p.type? "p.K.I" = some t ∧
      t.field? "n" = some f ∧ Program.fileScope "U.java" u = .ok (file, types) ∧
      Program.fileScope "W.java" w = .ok (file', types') ∧
      Names p u ⟨file, [plainScope]⟩ "p.K.I" "n" (.field (.ok "p.K.I") "n") ∧
      Names p u ⟨file, [plainScope]⟩ "p.K.I" "n" (.name "n") ∧
      Names p u ⟨file, [plainScope]⟩ "p.K.I" "n" (.field (.ok "I") "n") ∧
      Names p w ⟨file', [plainScope]⟩ "p.K.I" "n" (.name "n") ∧
      p.constantAt ⟨file, [plainScope]⟩ (.field (.ok "p.K.I") "n") = p.constant f ∧
      p.constantAt ⟨file, [plainScope]⟩ (.name "n") = p.constant f ∧
      p.constantAt ⟨file, [plainScope]⟩ (.field (.ok "I") "n") = p.constant f ∧
      p.constantAt ⟨file', [plainScope]⟩ (.name "n") = p.constant f := by
  have hchecked := importingChecked_eq
  unfold importingChecked at hchecked
  split at hchecked
  · rename_i p uContent wContent hread hu hw
    split at hchecked
    · rename_i u w hparse hparse'
      split at hchecked
      · rename_i file types c hfile hfile'
        obtain ⟨file', types'⟩ := c
        simp only [Bool.and_eq_true, decide_eq_true_eq, Option.isNone_iff_eq_none] at hchecked
        obtain ⟨⟨⟨⟨⟨⟨hfound, houter⟩, hhead⟩, hsingle⟩, hstatic⟩, hstatic'⟩, hdemand⟩ := hchecked
        obtain ⟨f, hf⟩ := Option.isSome_iff_exists.mp hfound
        obtain ⟨t, ht, hf⟩ := Option.bind_eq_some_iff.mp hf
        have hfields : ∀ s ∈ [plainScope], s.field? "n" = none := by
          simp [plainScope, TypeScope.field?]
        have hnames : ∀ s ∈ [plainScope],
            s.simpleName ≠ Name.simple "p.K.I" ∧ Name.simple "p.K.I" ∉ s.memberTypes := by
          decide
        have hqualified : Names p u ⟨file, [plainScope]⟩ "p.K.I" "n" (.field (.ok "p.K.I") "n") :=
          .qualified (by decide) hhead
        have himported : Names p u ⟨file, [plainScope]⟩ "p.K.I" "n" (.field (.ok "I") "n") :=
          .imported hnames ⟨by decide, [], [], hsingle, nofun⟩
        have hname : Names p u ⟨file, [plainScope]⟩ "p.K.I" "n" (.name "n") :=
          .static hfields ⟨by decide, ["r.R.n"], [], hstatic, nofun⟩
        have hnameOnDemand : Names p w ⟨file', [plainScope]⟩ "p.K.I" "n" (.name "n") := by
          have hnone : ∀ m ∈ imports .staticSingle w, m.simple ≠ "n" := by
            rw [hstatic']
            exact nofun
          have hsecond : imports .staticOnDemand w = ["p.K"] ++ "p.K.I" :: [] := hdemand
          refine .staticOnDemand hfields hnone hsecond ?_
          intro m hm v hv
          obtain rfl := List.mem_singleton.mp hm
          simpa [hv] using houter
        exact ⟨p, t, f, u, w, file, file', types, types', hread, ht, hf, hfile, hfile', hqualified,
          hname, himported, hnameOnDemand,
          (constantAt_eq_of_names hread ht hf hfile hqualified).1,
          (constantAt_eq_of_names hread ht hf hfile hname).1,
          (constantAt_eq_of_names hread ht hf hfile himported).1,
          (constantAt_eq_of_names hread ht hf hfile' hnameOnDemand).1⟩
      · cases hchecked
    · cases hchecked
  · cases hchecked

end SourceReader

end LookupGen
