import LookupGen.Proofs.SourceTree.Quiet

/-!
# Searches on disks that grow

A search for sources finds the same files on a disk that has grown, if the files that were put there
are no sources by their names or lie below the directory that is not entered. Directories that were
made on the way hold nothing else.

This module does NOT speak of ignore rules that change: the rules are read before the search.
-/

namespace LookupGen

namespace SourceTree

open Disk (Grows)

variable {s : SourceTree} {here : Path} {entries : List (Text × Node)} {name : Text}
  {above : List Text} {new : Node} {d d' : Disk}

def searched (s : SourceTree) (sourceRoot here : Path) : Option Node → Except Failure (List Path)
  | none => .error (.missingRoot sourceRoot)
  | some (.file _) => .ok (if here.suffix = sourceSuffix then [here] else [])
  | some (.dir entries) => .ok (sourcesIn s here entries)

theorem sourcesOf_eq (hd : d.Sound) (s : SourceTree) (sourceRoot : Path) :
    sourcesOf d s sourceRoot =
      searched s sourceRoot (d.resolve sourceRoot) (d.root.at? (d.placeOf sourceRoot)) := by
  have hnode := Disk.node?_settled hd (Disk.settled_resolve d sourceRoot)
  rw [sourcesOf, hnode]
  rfl

/-- A place that no search finds from any root outside the directory that is not entered. -/
def Hidden (s : SourceTree) (names : List Text) : Prop :=
  ¬ IsSource names ∨
  ∃ out rest, names = out ++ rest ∧ rest ≠ [] ∧ s.outputDir = some ⟨.root, out⟩

/-- A source root that neither is the directory that is not entered nor lies below it. -/
def Outside (s : SourceTree) (names : List Text) : Prop :=
  ∀ out, s.outputDir = some ⟨.root, out⟩ → ¬ out <+: names

theorem Hidden.unseen {names below : List Text} (houtside : Outside s names) (hbelow : below ≠ [])
    (h : Hidden s (names ++ below)) : Unseen s ⟨.root, names⟩ below := by
  rcases h with hsource | ⟨out, rest, hsplit, hrest, hout⟩
  · left
    unfold IsSource at hsource ⊢
    rwa [List.getLast?_append_of_ne_nil _ hbelow] at hsource
  · right
    rcases List.append_eq_append_iff.mp hsplit with ⟨first, rfl, rfl⟩ | ⟨first, rfl, -⟩
    · refine ⟨first, rest, rfl, ?_, hrest, hout⟩
      rintro rfl
      rw [List.append_nil] at hout
      exact houtside names hout (List.prefix_refl names)
    · exact absurd (List.prefix_append out first) (houtside out hout)

inductive Step (s : SourceTree) (d : Disk) (names : List Text) : Node → Prop where
  | dir (hfree : d.root.kindAt? names = none) : Step s d names .emptyDir
  | file (content : Bytes) (hplace : d.root.kindAt? names ≠ some .dir) (hhidden : Hidden s names) :
      Step s d names (.file content)

theorem Step.not_dir {names : List Text} (h : Step s d names new) :
    d.root.kindAt? names ≠ some .dir := by
  cases h with
  | dir hfree =>
    rw [hfree]
    exact (Option.some_ne_none _).symm
  | file content hplace _ => exact hplace

theorem searched_put_inside {rest names : List Text}
    (habove : d.root.kindAt? (names ++ rest) = some .dir)
    (hstep : Step s d (names ++ rest ++ [name]) new) (houtside : Outside s names)
    (sourceRoot : Path) :
    searched s sourceRoot ⟨.root, names⟩ ((d.root.put (names ++ rest ++ [name]) new).at? names) =
      searched s sourceRoot ⟨.root, names⟩ (d.root.at? names) := by
  obtain ⟨entries, hentries⟩ : ∃ entries, d.root.at? names = some (.dir entries) := by
    apply Node.at?_of_kindAt?_dir
    cases rest with
    | nil => rwa [List.append_nil] at habove
    | cons n rest => exact Node.kindAt?_above habove
  have hrelative (below : List Text) :
      d.root.kindAt? (names ++ below) = (Node.dir entries).kindAt? below := by
    rw [Node.kindAt?, Node.at?_append, hentries, Option.bind_some, Node.kindAt?]
  have hquiet : Quiet s ⟨.root, names⟩ (.dir entries) (rest ++ [name]) new := by
    have hne : rest ++ [name] ≠ [] := List.append_ne_nil_of_right_ne_nil _ (List.cons_ne_nil _ _)
    rw [List.append_assoc] at hstep
    cases hstep with
    | dir hfree => exact .dir ((hrelative _).symm.trans hfree)
    | file content hnot hhidden =>
      exact .file content (hrelative (rest ++ [name]) ▸ hnot) (hhidden.unseen houtside hne)
  obtain ⟨entries', hentries'⟩ : ∃ entries',
      (Node.dir entries).put (rest ++ [name]) new = .dir entries' := by
    cases rest with
    | nil => exact ⟨_, Node.put_cons entries name [] new⟩
    | cons n rest => exact ⟨_, Node.put_cons entries n (rest ++ [name]) new⟩
  have hsame := sourcesAt_put (hrelative rest ▸ habove) hquiet
  rw [hentries', sourcesAt_dir, sourcesAt_dir] at hsame
  rw [Node.at?_put_append hentries habove name new, hentries', hentries, searched, searched, hsame]

theorem searched_put (habove : d.root.kindAt? above = some .dir)
    (hstep : Step s d (above ++ [name]) new)
    {names : List Text} {node : Node} (hnode : d.root.at? names = some node)
    (houtside : Outside s names) (sourceRoot : Path) :
    searched s sourceRoot ⟨.root, names⟩ ((d.root.put (above ++ [name]) new).at? names) =
      searched s sourceRoot ⟨.root, names⟩ (d.root.at? names) := by
  by_cases hinside : names <+: above
  · obtain ⟨rest, rfl⟩ := hinside
    exact searched_put_inside habove hstep houtside sourceRoot
  have hkind := Node.kindAt?_of_at? hnode
  by_cases hself : names = above ++ [name]
  · subst hself
    have hafter := Disk.kindAt?_put_self habove name new
    cases hstep with
    | dir hfree =>
      rw [hfree] at hkind
      cases hkind
    | file content hplace _ =>
      have hfile : (d.root.put (above ++ [name]) (.file content)).at? (above ++ [name]) =
          some (.file content) := Node.at?_of_kindAt?_file hafter
      rw [hfile, hnode]
      cases node with
      | file before => rfl
      | dir entries => exact absurd hkind hplace
  · have hbelow : ¬ names <+: above ++ [name] := by
      intro hprefix
      rcases List.prefix_concat_iff.mp hprefix with heq | hprefix
      · exact hself heq
      · exact hinside hprefix
    have hbeside : ¬ above ++ [name] <+: names := by
      rintro ⟨rest, rfl⟩
      cases rest with
      | nil => exact hself (List.append_nil _)
      | cons n rest => exact hstep.not_dir (Node.kindAt?_above hkind)
    rw [Node.at?_put_of_not_prefix habove hbelow hbeside]

theorem sourcesOf_grows {files : List Text → Prop} {sourceRoot : Path} {ps : List Path}
    (hd : d.Sound) (h : Grows files d d') (hfiles : ∀ names, files names → Hidden s names)
    (houtside : Outside s (d.placeOf sourceRoot)) (hok : sourcesOf d s sourceRoot = .ok ps) :
    sourcesOf d' s sourceRoot = .ok ps := by
  have hstep {d' : Disk} {above : List Text} {name : Text} {new : Node} (hgrown : Grows files d d')
      (habove : d'.root.kindAt? above = some .dir) (hput : Step s d' (above ++ [name]) new)
      (hnext : Grows files d' (d'.put (above ++ [name]) new))
      (hok : sourcesOf d' s sourceRoot = .ok ps) :
      sourcesOf (d'.put (above ++ [name]) new) s sourceRoot = .ok ps := by
    have hd' := hgrown.sound hd
    rw [sourcesOf_eq hd', Disk.resolve_eq, hgrown.placeOf_eq] at hok
    rw [sourcesOf_eq (hnext.sound hd'), Disk.resolve_eq, hnext.placeOf_eq, hgrown.placeOf_eq]
    cases hnode : d'.root.at? (d.placeOf sourceRoot) with
    | none =>
      rw [hnode] at hok
      cases hok
    | some node => exact (searched_put habove hput hnode houtside sourceRoot).trans hok
  induction h with
  | refl => exact hok
  | dir hgrown habove hfree ih =>
    exact hstep hgrown habove (.dir hfree) (.dir .refl habove hfree) ih
  | file hgrown habove hplace hfile content ih =>
    exact hstep hgrown habove (.file content hplace (hfiles _ hfile))
      (.file .refl habove hplace hfile content) ih

/-- Nothing at or above a place but the place itself is the directory that is not entered. -/
def NotBelow (s : SourceTree) (names : List Text) : Prop :=
  ∀ out rest, s.outputDir = some ⟨.root, out⟩ → names = out ++ rest → rest = []

structure Found (d : Disk) (p : Path) : Prop where
  settled : p.Settled
  stands : ∃ content, d.root.kindAt? p.names = some (.file content)
  source : IsSource p.names

theorem Outside.eq_nil_of_child {names : List Text} (h : Outside s names) {out rest : List Text}
    (hout : s.outputDir = some ⟨.root, out⟩) (hsplit : names ++ [name] = out ++ rest) :
    rest = [] := by
  rcases List.eq_nil_or_concat rest with hrest | ⟨more, last, rfl⟩
  · exact hrest
  · exfalso
    rw [List.concat_eq_append, ← List.append_assoc] at hsplit
    obtain ⟨hnames, -⟩ := List.append_inj' hsplit rfl
    exact h out hout (hnames ▸ List.prefix_append out more)

theorem Outside.child {names : List Text} (h : Outside s names)
    (hskips : s.skips ⟨.root, names ++ [name]⟩ = false) : Outside s (names ++ [name]) := by
  rintro out hout ⟨rest, hsplit⟩
  have hrest := h.eq_nil_of_child hout hsplit.symm
  rw [hrest, List.append_nil] at hsplit
  rw [skips, hout, hsplit] at hskips
  simp at hskips

mutual

theorem found_sourcesAt (hd : d.Plain) (names : List Text) (node : Node)
    (hat : d.root.at? names = some node) (hdir : node.isDir = true) :
    ∀ p ∈ sourcesAt s ⟨.root, names⟩ node, Found d p ∧ (Outside s names → NotBelow s p.names) := by
  cases node with
  | file content => cases hdir
  | dir entries =>
    rw [sourcesAt_dir]
    exact found_sourcesIn hd names entries fun e he => hd.at?_child hat he

theorem found_sourcesIn (hd : d.Plain) (names : List Text) (entries : List (Text × Node))
    (hat : ∀ e ∈ entries, d.root.at? (names ++ [e.1]) = some e.2) :
    ∀ p ∈ sourcesIn s ⟨.root, names⟩ entries, Found d p ∧
      (Outside s names → NotBelow s p.names) := by
  cases entries with
  | nil =>
    rw [sourcesIn_nil]
    exact fun p hp => absurd hp List.not_mem_nil
  | cons e rest =>
    obtain ⟨name, child⟩ := e
    intro p hp
    rw [sourcesIn_cons] at hp
    rcases List.mem_append.mp hp with hp | hp
    · have hchild := hat (name, child) List.mem_cons_self
      cases child with
      | file content =>
        rw [contribution, sourcesAt_file, Node.isDir, Bool.false_and,
          if_neg Bool.false_ne_true] at hp
        split at hp
        · rename_i htakes
          obtain rfl := List.mem_singleton.mp hp
          have hname : (Path.child ⟨.root, names⟩ name).name = name := by
            rw [Path.child, Path.name, List.getLast?_concat]
            rfl
          rw [takes, Bool.and_eq_true, hname] at htakes
          constructor
          · exact ⟨⟨rfl, hd.up_not_mem hchild⟩, ⟨content, Node.kindAt?_of_at? hchild⟩,
              name, List.getLast?_concat, htakes.1⟩
          · exact fun houtside out below hout hsplit => houtside.eq_nil_of_child hout hsplit
        · cases hp
      | dir below =>
        rw [contribution, Node.isDir, Bool.true_and] at hp
        split at hp
        · cases hp
        · rename_i hskips
          obtain ⟨hfound, hbelow⟩ :=
            found_sourcesAt hd (names ++ [name]) (.dir below) hchild rfl p hp
          exact ⟨hfound, fun houtside => hbelow (houtside.child (Bool.eq_false_iff.mpr hskips))⟩
    · exact found_sourcesIn hd names rest (fun e he => hat e (List.mem_cons_of_mem _ he)) p hp

end

theorem endsWith_of_suffix {p : Path} (h : p.suffix = sourceSuffix) : IsSource p.names := by
  unfold Path.suffix at h
  split at h
  · rename_i before after hlast
    split at h
    · cases h
    · obtain ⟨hname, -⟩ := Text.splitLast_eq_some hlast
      cases hnames : p.names.getLast? with
      | none =>
        rw [Path.name, hnames] at hname
        simp at hname
      | some last =>
        rw [Path.name, hnames, Option.getD_some] at hname
        have hjoin : Text.join [".", after] = CodePoint.ofChar '.' :: after := by
          simp [Text.join, Text.ofString]
        refine ⟨last, hnames, ?_⟩
        rw [Text.endsWith, List.isSuffixOf_iff_suffix, ← h, hname, hjoin]
        exact List.suffix_append before _
  · cases h

theorem found_sourcesOf (hd : d.Plain) {sourceRoot : Path} {ps : List Path}
    (hok : sourcesOf d s sourceRoot = .ok ps) :
    ∀ p ∈ ps, Found d p ∧ (Outside s (d.placeOf sourceRoot) → NotBelow s p.names) := by
  have hsettled := Disk.settled_resolve d sourceRoot
  rw [sourcesOf_eq hd.toSound, Disk.resolve_eq] at hok
  rw [Disk.resolve_eq] at hsettled
  cases hnode : d.root.at? (d.placeOf sourceRoot) with
  | none =>
    rw [hnode] at hok
    cases hok
  | some node =>
    rw [hnode] at hok
    cases node with
    | dir entries =>
      obtain rfl := Except.ok.inj hok
      exact found_sourcesIn hd _ entries fun e he => hd.at?_child hnode he
    | file content =>
      obtain rfl := Except.ok.inj hok
      intro p hp
      split at hp
      · rename_i hsuffix
        obtain rfl := List.mem_singleton.mp hp
        refine ⟨⟨hsettled, ⟨content, Node.kindAt?_of_at? hnode⟩, endsWith_of_suffix hsuffix⟩, ?_⟩
        intro houtside out rest hout hsplit
        exact absurd ⟨rest, hsplit.symm⟩ (houtside out hout)
      · cases hp

theorem sources_eq_ok_iff {ps : List Path} :
    s.sources d = .ok ps ↔ ∃ lists,
      List.Forall₂ (fun sourceRoot found => sourcesOf d s sourceRoot = .ok found)
        s.sourceRoots lists ∧
      sortPaths lists.flatten = ps := by
  unfold sources
  rw [map_eq_ok]
  simp only [mapM_eq_ok_iff]

theorem mem_sortPaths {ps : List Path} {p : Path} : p ∈ sortPaths ps ↔ p ∈ ps :=
  List.mem_eraseDups.trans List.mem_mergeSort

theorem mem_sources {ps : List Path} (hok : s.sources d = .ok ps) {p : Path} :
    p ∈ ps ↔
      ∃ sourceRoot ∈ s.sourceRoots, ∃ found, sourcesOf d s sourceRoot = .ok found ∧ p ∈ found := by
  obtain ⟨lists, hall, rfl⟩ := sources_eq_ok_iff.mp hok
  rw [mem_sortPaths, List.mem_flatten]
  constructor
  · rintro ⟨found, hfound, hp⟩
    obtain ⟨sourceRoot, hroot, hsources⟩ := exists_of_mem_right hall hfound
    exact ⟨sourceRoot, hroot, found, hsources, hp⟩
  · rintro ⟨sourceRoot, hroot, found, hsources, hp⟩
    obtain ⟨found', hfound, hsources'⟩ := exists_of_mem_right hall.flip hroot
    obtain rfl := Except.ok.inj (hsources'.symm.trans hsources)
    exact ⟨found', hfound, hp⟩

theorem found_sources (hd : d.Plain) {ps : List Path} (hok : s.sources d = .ok ps) :
    ∀ p ∈ ps, Found d p ∧
      ((∀ sourceRoot ∈ s.sourceRoots, Outside s (d.placeOf sourceRoot)) → NotBelow s p.names) := by
  intro p hp
  obtain ⟨sourceRoot, hroot, found, hfound, hmem⟩ := (mem_sources hok).mp hp
  obtain ⟨hstands, hbelow⟩ := found_sourcesOf hd hfound p hmem
  exact ⟨hstands, fun houtside => hbelow (houtside sourceRoot hroot)⟩

theorem sources_grows {files : List Text → Prop} {ps : List Path} (hd : d.Sound)
    (h : Grows files d d') (hfiles : ∀ names, files names → Hidden s names)
    (houtside : ∀ sourceRoot ∈ s.sourceRoots, Outside s (d.placeOf sourceRoot))
    (hok : s.sources d = .ok ps) : s.sources d' = .ok ps := by
  obtain ⟨lists, hall, rfl⟩ := sources_eq_ok_iff.mp hok
  refine sources_eq_ok_iff.mpr ⟨lists, ?_, rfl⟩
  apply ((List.forall₂_and_left _ _).mpr ⟨houtside, hall⟩).imp
  rintro sourceRoot found ⟨hroot, hfound⟩
  exact sourcesOf_grows hd h hfiles hroot hfound

end SourceTree

end LookupGen
