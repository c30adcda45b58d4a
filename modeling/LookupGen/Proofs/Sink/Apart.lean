import LookupGen.Proofs.Disk.Below
import LookupGen.Proofs.Generation.Growth
import LookupGen.Proofs.Sink.Place

/-!
# Files apart

The files of valid names below one directory. Each lies below it, at names that lead nowhere else;
no two names have one file; and no file lies where another one needs a directory. So the files of
some names can be written one after the other whenever each of them could be written alone, and in
the end each holds what it would hold then.
-/

namespace LookupGen

def Path.Above (p q : Path) : Prop :=
  p.anchor = q.anchor ∧ ∃ names, names ≠ [] ∧ q.names = p.names ++ names

namespace Sink

open Disk (Grows Made Beside Clear)

variable {d d' : Disk} {root : Path} {m n : Name} {s : Sink}

def namesBelow (n : Name) : List Text := Name.packageSegments n ++ [fileName n]

theorem pathOf_below (h : Name.isValid n = true) (root : Path) :
    pathOf root n = root.below (namesBelow n) := pathOf_eq h root

theorem dot_not_mem_of_mem_packageSegments (h : Name.isValid n = true) {name : Text}
    (hname : name ∈ Name.packageSegments n) : CodePoint.ofChar '.' ∉ name := by
  intro hdot
  have hin : name ∈ Name.segments n := by
    rw [Name.segments_eq h]
    exact List.mem_append_left _ hname
  exact (Text.mem_of_mem_splitAll hin hdot).1 rfl

theorem dot_mem_fileName (n : Name) : CodePoint.ofChar '.' ∈ fileName n :=
  List.mem_append_right _ (by decide)

theorem slash_not_mem_fileName (h : Name.isValid n = true) : CodePoint.ofChar '/' ∉ fileName n := by
  intro hslash
  rcases List.mem_append.mp hslash with hslash | hslash
  · exact slash_not_mem_of_isValid h (Name.mem_of_mem_simple hslash)
  · exact absurd hslash (by decide)

/-- A name that a directory has but that leads nowhere else. -/
structure Plain (name : Text) : Prop where
  ne_nil : name ≠ []
  ne_here : name ≠ "."
  ne_up : name ≠ Path.up
  slash : CodePoint.ofChar '/' ∉ name

theorem plain_of_mem_namesBelow (h : Name.isValid n = true) {name : Text}
    (hname : name ∈ namesBelow n) : Plain name := by
  rcases List.mem_append.mp hname with hname | hname
  · have hdot := dot_not_mem_of_mem_packageSegments h hname
    refine ⟨Name.isIdentifier_ne_nil (Name.isIdentifier_of_mem_packageSegments h hname), ?_, ?_, ?_⟩
    · rintro rfl
      exact hdot List.mem_cons_self
    · rintro rfl
      exact hdot List.mem_cons_self
    · intro hslash
      have hin : name ∈ Name.segments n := by
        rw [Name.segments_eq h]
        exact List.mem_append_left _ hname
      exact slash_not_mem_of_isValid h (Text.mem_of_mem_splitAll hin hslash).2
  · obtain rfl := List.mem_singleton.mp hname
    have hlength : 5 ≤ (fileName n).length := by
      rw [fileName, List.length_append]
      exact Nat.le_add_left 5 _
    refine ⟨?_, ?_, ?_, slash_not_mem_fileName h⟩
    · intro hnil
      rw [hnil] at hlength
      exact absurd hlength (by decide)
    · intro hhere
      rw [hhere] at hlength
      exact absurd hlength (by decide)
    · intro hup
      rw [hup] at hlength
      exact absurd hlength (by decide)

/-- The names of one file do not start those of another one: a dot stands in the last of them, and
in none of the names of a package. -/
theorem eq_of_prefix_namesBelow (hm : Name.isValid m = true) (hn : Name.isValid n = true)
    (h : namesBelow m <+: namesBelow n) : m = n := by
  obtain ⟨rest, hrest⟩ := h
  rcases List.eq_nil_or_concat rest with rfl | ⟨front, last, rfl⟩
  · rw [List.append_nil] at hrest
    obtain ⟨hpackage, hfile⟩ := List.append_inj' hrest rfl
    have hsimple : Name.simple m = Name.simple n :=
      List.append_cancel_right (List.head_eq_of_cons_eq hfile)
    apply Name.eq_of_segments
    rw [Name.segments_eq hm, Name.segments_eq hn, hpackage, hsimple]
  · rw [List.concat_eq_append, ← List.append_assoc] at hrest
    obtain ⟨hpackage, -⟩ := List.append_inj' hrest rfl
    have hin : fileName m ∈ Name.packageSegments n := by
      rw [← hpackage]
      exact List.mem_append_left _ (List.mem_append_right _ (List.mem_singleton_self _))
    exact absurd (dot_mem_fileName m) (dot_not_mem_of_mem_packageSegments hn hin)

theorem up_not_mem_namesBelow (h : Name.isValid n = true) : Path.up ∉ namesBelow n :=
  up_not_mem_fileNames h

theorem not_above_pathOf (hm : Name.isValid m = true) (hn : Name.isValid n = true) (root : Path) :
    ¬ (pathOf root m).Above (pathOf root n) := by
  rintro ⟨-, names, hnames, hbelow⟩
  rw [pathOf_below hm, pathOf_below hn] at hbelow
  have hrest : namesBelow n = namesBelow m ++ names :=
    List.append_cancel_left (hbelow.trans (List.append_assoc root.names _ _))
  obtain rfl := eq_of_prefix_namesBelow hm hn ⟨names, hrest.symm⟩
  exact hnames (List.self_eq_append_right.mp hrest)

theorem eq_of_pathOf (hm : Name.isValid m = true) (hn : Name.isValid n = true)
    (h : pathOf root m = pathOf root n) : m = n := by
  rw [pathOf_below hm, pathOf_below hn] at h
  have hbelow := List.append_cancel_left (congrArg Path.names h)
  exact eq_of_prefix_namesBelow hm hn (hbelow ▸ List.prefix_refl _)

/-- The way to a directory goes down from one that is there. -/
structure Descends (d : Disk) (root base : Path) (more : List Text) : Prop where
  root : root = base.below more
  made : Made d base
  up : Path.up ∉ more

variable {base : Path} {more : List Text} {draft : Draft}

theorem Descends.pathOf (h : Descends d root base more) (hn : Name.isValid n = true) :
    pathOf root n = base.below ((more ++ Name.packageSegments n) ++ [fileName n]) := by
  rw [pathOf_below hn, h.root, Path.below, Path.below, Path.below, List.append_assoc,
    List.append_assoc]
  rfl

theorem Descends.up_not_mem (h : Descends d root base more) (hn : Name.isValid n = true) :
    Path.up ∉ (more ++ Name.packageSegments n) ++ [fileName n] := by
  rw [List.append_assoc]
  intro hup
  exact (List.mem_append.mp hup).elim h.up (up_not_mem_namesBelow hn)

theorem Descends.placeOf (h : Descends d root base more) (hn : Name.isValid n = true) :
    d.placeOf (Sink.pathOf root n) = d.placeOf base ++ (more ++ namesBelow n) := by
  rw [h.pathOf hn, Disk.placeOf_below (h.up_not_mem hn), List.append_assoc, namesBelow]

theorem Descends.grows {files : List Text → Prop} (h : Descends d root base more)
    (hgrows : Grows files d d') : Descends d' root base more := ⟨h.root, hgrows.made h.made, h.up⟩

theorem Descends.not_starts (h : Descends d root base more) (hm : Name.isValid m = true)
    (hn : Name.isValid n = true) (hne : m ≠ n) :
    ¬ d.placeOf (Sink.pathOf root m) <+: d.placeOf (Sink.pathOf root n) := by
  rw [h.placeOf hm, h.placeOf hn, List.prefix_append_right_inj, List.prefix_append_right_inj]
  exact fun hstarts => hne (eq_of_prefix_namesBelow hm hn hstarts)

def Free (d : Disk) (base : Path) (more : List Text) (n : Name) : Prop :=
  Clear d base (more ++ Name.packageSegments n) (fileName n)

theorem free_of_write (hd : d.Sound) (h : Descends d root base more) (hn : Name.isValid n = true)
    (hstore : s.store = .directory root) (hrun : (s.write n draft).run d = (.ok s, d')) :
    Free d base more n := by
  rw [run_write_directory hstore, openFile_eq, h.pathOf hn] at hrun
  cases hopen : (Disk.openWith (fun _ => [])
      (base.below ((more ++ Name.packageSegments n) ++ [fileName n]))).run d with
  | mk answer d₁ =>
    cases answer with
    | error e =>
      rw [hopen] at hrun
      cases hrun
    | ok u => exact Disk.clear_of_openWith hd h.made (h.up_not_mem hn) hopen

theorem Free.grows (hfree : Free d base more n) (h : Descends d root base more)
    (hm : Name.isValid m = true) (hn : Name.isValid n = true) (hne : m ≠ n)
    (hgrows : Grows (· = d.placeOf (pathOf root m)) d d')
    (hbeside : Beside (d.placeOf (pathOf root m)) d d') : Free d' base more n := by
  apply Clear.beside hfree hgrows hbeside
  · intro hstarts
    apply h.not_starts hm hn hne
    rw [h.placeOf hn, namesBelow, ← List.append_assoc, ← List.append_assoc]
    rw [← List.append_assoc] at hstarts
    exact hstarts.trans (List.prefix_append _ _)
  · have hother := h.not_starts hn hm hne.symm
    rw [h.placeOf hn, namesBelow, ← List.append_assoc more] at hother
    exact hother

/-- The same parts that can be added to one file can be added to another one, and make the same
content of the same content. -/
theorem appendParts_again {parts : List Text} {p : Path} {old : Bytes} {d₁ : Disk}
    (hd : d.Sound) (hd' : d'.Sound) (hread : d.read p = .ok old) (hread' : d'.read p = .ok old)
    (hrun : (appendParts p parts).run d = (.ok (), d₁)) :
    ∃ d₁' bytes, (appendParts p parts).run d' = (.ok (), d₁') ∧ Beside (d'.placeOf p) d' d₁' ∧
      d₁.read p = .ok bytes ∧ d₁'.read p = .ok bytes := by
  induction parts generalizing d d' old with
  | nil =>
    obtain ⟨-, rfl⟩ := Prod.mk.inj hrun
    exact ⟨d', old, rfl, .refl _ d', hread, hread'⟩
  | cons part rest ih =>
    rw [appendParts] at hrun ⊢
    cases hencode : Utf8.encode part with
    | error e =>
      rw [hencode] at hrun
      cases hrun
    | ok content =>
      obtain ⟨d₂, happend, hread₂⟩ := Disk.run_append_of_read hd hread content
      obtain ⟨d₂', happend', hread₂'⟩ := Disk.run_append_of_read hd' hread' content
      have hgrows := Disk.grows_append hd p content
      have hgrows' := Disk.grows_append hd' p content
      have hbeside := Disk.beside_append hd' p content
      rw [happend] at hgrows
      rw [happend'] at hgrows' hbeside
      simp only [hencode] at hrun ⊢
      rw [exceptT_run_bind, run_onDisk, happend] at hrun
      rw [exceptT_run_bind, run_onDisk, happend']
      obtain ⟨d₁', bytes, hrest, hbeside', hbytes, hbytes'⟩ :=
        ih (hgrows.sound hd) (hgrows'.sound hd') hread₂ hread₂' hrun
      rw [hgrows'.placeOf_eq] at hbeside'
      exact ⟨d₁', bytes, hrest, hbeside.trans hbeside', hbytes, hbytes'⟩

theorem exists_opened_of_write (hd : d.Sound) (hstore : s.store = .directory root)
    (hrun : (s.write n draft).run d = (.ok s, d')) :
    ∃ d₁, (openFile (pathOf root n)).run d = (.ok (), d₁) ∧ d₁.Sound ∧
      d₁.read (pathOf root n) = .ok [] ∧
      (appendParts (pathOf root n) draft.parts).run d₁ = (.ok (), d') := by
  rw [run_write_directory hstore] at hrun
  rcases run_openFile hd (pathOf root n) with ⟨e, d₁, hopen, -⟩ | ⟨d₁, hopen, hkeeps, hread⟩
  · rw [hopen] at hrun
    cases hrun
  · refine ⟨d₁, hopen, hkeeps.sound hd, hread, ?_⟩
    rw [hopen] at hrun
    simp only at hrun
    cases happend : (appendParts (pathOf root n) draft.parts).run d₁ with
    | mk answer d₂ =>
      rw [happend] at hrun
      cases answer with
      | error e => cases hrun
      | ok u => rw [(Prod.mk.inj hrun).2]

theorem write_of_free (hd : d.Sound) (hd' : d'.Sound) (h : Descends d' root base more)
    (hn : Name.isValid n = true) (hstore : s.store = .directory root) {d₁ : Disk}
    (hrun : (s.write n draft).run d = (.ok s, d₁)) (hfree : Free d' base more n) :
    ∃ d₁' bytes, (s.write n draft).run d' = (.ok s, d₁') ∧
      Beside (d'.placeOf (pathOf root n)) d' d₁' ∧
      d₁.read (pathOf root n) = .ok bytes ∧ d₁'.read (pathOf root n) = .ok bytes := by
  obtain ⟨d₂, -, hd₂, hread, happend⟩ := exists_opened_of_write hd hstore hrun
  obtain ⟨d₂', hopen', hbeside⟩ :=
    Disk.openWith_of_clear hd' h.made (h.up_not_mem hn) hfree fun _ => []
  rw [← h.pathOf hn] at hopen' hbeside
  rcases run_openFile hd' (pathOf root n) with ⟨e, d₃, hfail, -⟩ | ⟨d₃, hopen, hkeeps, hread'⟩
  · rw [openFile_eq, hopen'] at hfail
    cases hfail
  · rw [openFile_eq, hopen'] at hopen
    obtain ⟨-, rfl⟩ := Prod.mk.inj hopen
    obtain ⟨d₁', bytes, happend', hbeside', hbytes, hbytes'⟩ :=
      appendParts_again hd₂ (hkeeps.sound hd') hread hread' happend
    rw [hkeeps.placeOf_eq] at hbeside'
    refine ⟨d₁', bytes, ?_, hbeside.trans hbeside', hbytes, hbytes'⟩
    rw [run_write_directory hstore, openFile_eq, hopen']
    simp only
    rw [happend']

def writeAll (drafts : List (Name × Draft)) (s : Sink) : WriteM Sink :=
  drafts.foldlM (fun (s : Sink) x => s.write x.1 x.2) s

theorem writes_of_free (hd : d.Sound) {drafts : List (Name × Draft)}
    (hstore : s.store = .directory root) (hvalid : ∀ x ∈ drafts, Name.isValid x.1 = true)
    (hapart : (drafts.map (·.1)).Nodup)
    (halone : ∀ x ∈ drafts, ∃ d₁, (s.write x.1 x.2).run d = (.ok s, d₁))
    (hd' : d'.Sound) (h : Descends d' root base more)
    (hfree : ∀ x ∈ drafts, Free d' base more x.1) :
    ∃ d'', (writeAll drafts s).run d' = (.ok s, d'') ∧
      Grows (fun place => ∃ x ∈ drafts, place = d'.placeOf (pathOf root x.1)) d' d'' ∧
      ∀ x ∈ drafts, ∃ d₁ bytes, (s.write x.1 x.2).run d = (.ok s, d₁) ∧
        d₁.read (pathOf root x.1) = .ok bytes ∧ d''.read (pathOf root x.1) = .ok bytes := by
  induction drafts generalizing d' with
  | nil => exact ⟨d', rfl, .refl, nofun⟩
  | cons x rest ih =>
    obtain ⟨hx, hrest⟩ := List.forall_mem_cons.mp hvalid
    obtain ⟨hnot, hrestapart⟩ := List.nodup_cons.mp hapart
    obtain ⟨⟨d₁, hrun⟩, hrestalone⟩ := List.forall_mem_cons.mp halone
    obtain ⟨hxfree, hrestfree⟩ := List.forall_mem_cons.mp hfree
    obtain ⟨d₂, bytes, hwrite, hbeside, hbytes, hbytes'⟩ :=
      write_of_free hd hd' h hx hstore hrun hxfree
    have hgrows := grows_write hd' hstore x.1 x.2
    rw [hwrite] at hgrows
    have hne : ∀ y ∈ rest, x.1 ≠ y.1 := by
      intro y hy heq
      exact hnot (List.mem_map.mpr ⟨y, hy, heq.symm⟩)
    have hfree₂ : ∀ y ∈ rest, Free d₂ base more y.1 := fun y hy =>
      (hrestfree y hy).grows h hx (hrest y hy) (hne y hy) hgrows hbeside
    obtain ⟨d'', hwrites, hgrows', hreads⟩ :=
      ih hrest hrestapart hrestalone (hgrows.sound hd') (h.grows hgrows) hfree₂
    simp only [hgrows.placeOf_eq] at hgrows'
    refine ⟨d'', ?_, (hgrows.mono ?_).trans (hgrows'.mono ?_), ?_⟩
    · rw [writeAll, List.foldlM_cons, exceptT_run_bind, hwrite]
      exact hwrites
    · rintro place rfl
      exact ⟨x, List.mem_cons_self, rfl⟩
    · rintro place ⟨y, hy, hplace⟩
      exact ⟨y, List.mem_cons_of_mem _ hy, hplace⟩
    · refine List.forall_mem_cons.mpr ⟨⟨d₁, bytes, hrun, hbytes, ?_⟩, hreads⟩
      apply hgrows'.keeps.read_eq (hgrows.sound hd') ?_ hbytes'
      rintro ⟨y, hy, hplace⟩
      rw [hgrows.placeOf_eq] at hplace
      apply h.not_starts hx (hrest y hy) (hne y hy)
      rw [hplace]

theorem exists_write_of_isSome (hstore : s.store = .directory root)
    (h : ((s.write n draft).run d).1.toOption.isSome = true) :
    ∃ d₁, (s.write n draft).run d = (.ok s, d₁) := by
  rw [run_write_directory hstore] at h ⊢
  cases hopen : (openFile (pathOf root n)).run d with
  | mk answer d₂ =>
    rw [hopen] at h
    cases answer with
    | error e => cases h
    | ok u =>
      simp only at h ⊢
      cases happend : (appendParts (pathOf root n) draft.parts).run d₂ with
      | mk answer d₃ =>
        rw [happend] at h
        cases answer with
        | error e => cases h
        | ok u => exact ⟨d₃, rfl⟩

/-- The file of each valid name lies below the directory of a sink. Two names never share a file,
no file is that of a directory above another one, and texts that could each be written alone can be
written one after the other. -/
theorem files_apart (root : Path) (hm : Name.isValid m = true) (hn : Name.isValid n = true) :
    (∃ names, names ≠ [] ∧ pathOf root n = ⟨root.anchor, root.names ++ names⟩ ∧
      ∀ name ∈ names, Plain name) ∧
    (pathOf root m = pathOf root n → m = n) ∧
    ¬ (pathOf root m).Above (pathOf root n) ∧
    ∀ (s : Sink) (d : Disk) (base : Path) (more : List Text) (drafts : List (Name × Draft)),
      s.store = .directory root → d.Sound → Descends d root base more →
      (∀ x ∈ drafts, Name.isValid x.1 = true) → (drafts.map (·.1)).Nodup →
      (∀ x ∈ drafts, ∃ d₁, (s.write x.1 x.2).run d = (.ok s, d₁)) →
      ∃ d', (writeAll drafts s).run d = (.ok s, d') ∧
        ∀ x ∈ drafts, ∃ d₁ bytes, (s.write x.1 x.2).run d = (.ok s, d₁) ∧
          d₁.read (pathOf root x.1) = .ok bytes ∧ d'.read (pathOf root x.1) = .ok bytes := by
  refine ⟨⟨namesBelow n, ?_, pathOf_eq hn root, fun name => plain_of_mem_namesBelow hn⟩,
    eq_of_pathOf hm hn, not_above_pathOf hm hn root, ?_⟩
  · exact List.append_ne_nil_of_right_ne_nil _ (List.cons_ne_nil _ _)
  · intro s d base more drafts hstore hd hroot hvalid hapart halone
    have hfree : ∀ x ∈ drafts, Free d base more x.1 := by
      intro x hx
      obtain ⟨d₁, hrun⟩ := halone x hx
      exact free_of_write hd hroot (hvalid x hx) hstore hrun
    obtain ⟨d', hwrites, -, hreads⟩ :=
      writes_of_free hd hstore hvalid hapart halone hd hroot hfree
    exact ⟨d', hwrites, hreads⟩

theorem files_apart_nested :
    let root : Path := .ofText "out"
    let s : Sink := below root
    let d : Disk := ⟨.dir [], []⟩
    let drafts : List (Name × Draft) := [("A", ⟨["a"], true⟩), ("A.java", ⟨["b", "c"], true⟩)]
    Name.isValid "A" = true ∧ Name.isValid "A.java" = true ∧
      pathOf root "A" = .ofText "out/A.java" ∧ pathOf root "A.java" = .ofText "out/A/java.java" ∧
      ¬ (pathOf root "A").Above (pathOf root "A.java") ∧
      ∃ d', (writeAll drafts s).run d = (.ok s, d') ∧
        ∀ x ∈ drafts, ∃ bytes, d'.read (pathOf root x.1) = .ok bytes := by
  intro root s d drafts
  have hfirst : Name.isValid "A" = true := by decide +kernel
  have hsecond : Name.isValid "A.java" = true := by decide +kernel
  have hd : d.Sound := ⟨Node.kindAt?_nil _, rfl⟩
  have hroot : Descends d root ⟨.relative, []⟩ ["out"] :=
    ⟨by decide +kernel, ⟨rfl, Disk.kindOf?_nil hd _⟩, by decide +kernel⟩
  have halone : ∀ x ∈ drafts, ∃ d₁, (s.write x.1 x.2).run d = (.ok s, d₁) := by
    intro x hx
    apply exists_write_of_isSome rfl
    rcases List.mem_cons.mp hx with rfl | hx
    · decide +kernel
    · obtain rfl := List.mem_singleton.mp hx
      decide +kernel
  obtain ⟨-, -, habove, hwrites⟩ := files_apart root hfirst hsecond
  obtain ⟨d', hrun, hreads⟩ := hwrites s d _ _ drafts rfl hd hroot
    (by simp [drafts, hfirst, hsecond]) (by decide +kernel) halone
  refine ⟨hfirst, hsecond, by decide +kernel, by decide +kernel, habove, d', hrun, ?_⟩
  intro x hx
  obtain ⟨-, bytes, -, -, hread⟩ := hreads x hx
  exact ⟨bytes, hread⟩

end Sink

end LookupGen
