import LookupGen.Proofs.SourceTree.Reached
import Mathlib.Data.List.Lex
import Mathlib.Data.List.Sort
import Mathlib.Order.Fin.Basic

/-!
# What a search finds

What a search from all source roots finds, in which order, and when it fails: it is a filter on the
files of the disk, by their own paths and by the directories between them and a source root.
-/

namespace LookupGen

namespace SourceTree

variable {s : SourceTree} {d : Disk} {p : Path} {names below : List Text} {name : Text}
  {entries : List (Text × Node)}

theorem sourcesOf_exists (hd : d.Plain) {sourceRoot : Path}
    (hroot : d.pathExists (d.resolve sourceRoot) = true) :
    ∃ ps, sourcesOf d s sourceRoot = .ok ps ∧ ∀ p, p ∈ ps ↔ Has d s (d.resolve sourceRoot) p := by
  rw [Disk.pathExists, Disk.node?_settled hd.toSound (Disk.settled_resolve d sourceRoot)] at hroot
  rw [sourcesOf_eq hd.toSound]
  rw [Disk.resolve_eq] at hroot ⊢
  cases hat : d.root.at? (d.placeOf sourceRoot) with
  | none =>
    rw [hat] at hroot
    cases hroot
  | some node =>
    cases node with
    | dir entries => exact ⟨_, rfl, fun p => has_iff_of_dir hd hat⟩
    | file content =>
      refine ⟨_, rfl, ?_⟩
      intro p
      rw [has_iff_of_file hat]
      split
      · rename_i hsuffix
        rw [List.mem_singleton]
        exact ⟨fun hp => ⟨hp, hp ▸ hsuffix⟩, And.left⟩
      · rename_i hsuffix
        constructor
        · exact fun hp => absurd hp List.not_mem_nil
        · rintro ⟨rfl, h⟩
          exact absurd h hsuffix

theorem sourcesOf_missing (hd : d.Plain) {sourceRoot : Path}
    (hroot : d.pathExists (d.resolve sourceRoot) = false) :
    sourcesOf d s sourceRoot = .error (.missingRoot sourceRoot) := by
  rw [Disk.pathExists, Disk.node?_settled hd.toSound (Disk.settled_resolve d sourceRoot)] at hroot
  rw [sourcesOf_eq hd.toSound]
  rw [Disk.resolve_eq] at hroot
  cases hat : d.root.at? (d.placeOf sourceRoot) with
  | none => rfl
  | some node =>
    rw [hat] at hroot
    cases hroot

theorem sortPaths_sorted (ps : List Path) :
    (ps.mergeSort fun p q => Path.namesAtMost p.names q.names).Pairwise
      fun p q => p.names ≤ q.names := by
  have htrans : ∀ a b c : Path, Path.namesAtMost a.names b.names →
      Path.namesAtMost b.names c.names →
      Path.namesAtMost a.names c.names := by
    intro a b c hab hbc
    simp only [Path.namesAtMost, decide_eq_true_eq, not_lt] at hab hbc ⊢
    exact le_trans hab hbc
  have htotal : ∀ a b : Path, Path.namesAtMost a.names b.names ||
      Path.namesAtMost b.names a.names := by
    intro a b
    simp only [Path.namesAtMost, Bool.or_eq_true, decide_eq_true_eq, not_lt]
    exact le_total a.names b.names
  have h := List.pairwise_mergeSort htrans htotal ps
  refine h.imp ?_
  intro a b hab
  simpa [Path.namesAtMost] using hab

theorem strict_of_eraseDups {ps : List Path} (hsorted : ps.Pairwise fun p q => p.names ≤ q.names)
    (hanchor : ∀ p ∈ ps, p.anchor = .root) :
    ps.eraseDups.Pairwise fun p q => p.names < q.names := by
  induction hlength : ps.length using Nat.strong_induction_on generalizing ps with
  | _ length ih =>
    cases ps with
    | nil => exact .nil
    | cons p rest =>
      obtain ⟨hfirst, hrest⟩ := List.pairwise_cons.mp hsorted
      have hless : (rest.filter fun q => !q == p).length < length := by
        have := List.length_filter_le (fun q => !q == p) rest
        rw [← hlength, List.length_cons]
        omega
      rw [List.eraseDups_cons, List.pairwise_cons]
      constructor
      · intro q hq
        obtain ⟨hmem, hne⟩ := List.mem_filter.mp (List.mem_eraseDups.mp hq)
        apply lt_of_le_of_ne (hfirst q hmem)
        intro hnames
        have hp := hanchor p List.mem_cons_self
        have hq := hanchor q (List.mem_cons_of_mem p hmem)
        have heq : q = p := by
          cases p
          cases q
          simp_all
        simp [heq] at hne
      · apply ih _ hless (hrest.filter _) _ rfl
        intro q hq
        exact hanchor q (List.mem_cons_of_mem p (List.mem_filter.mp hq).1)

theorem sources_eq_error_iff (hd : d.Plain) {e : Failure} :
    s.sources d = .error e ↔ ∃ before root after, s.sourceRoots = before ++ root :: after ∧
      (∀ r ∈ before, d.pathExists (d.resolve r) = true) ∧
      d.pathExists (d.resolve root) = false ∧ e = .missingRoot root := by
  have hmapped : s.sources d = .error e ↔ s.sourceRoots.mapM (sourcesOf d s) = .error e := by
    unfold sources
    cases s.sourceRoots.mapM (sourcesOf d s) with
    | error e' => simp [Except.map]
    | ok found => simp [Except.map]
  have hok (root : Path) :
      (∃ ps, sourcesOf d s root = .ok ps) ↔ d.pathExists (d.resolve root) = true := by
    cases hroot : d.pathExists (d.resolve root) with
    | true =>
      obtain ⟨ps, hps, -⟩ := sourcesOf_exists (s := s) hd hroot
      exact ⟨fun _ => rfl, fun _ => ⟨ps, hps⟩⟩
    | false =>
      rw [sourcesOf_missing hd hroot]
      simp
  have herror (root : Path) : sourcesOf d s root = .error e ↔
      d.pathExists (d.resolve root) = false ∧ e = .missingRoot root := by
    cases hroot : d.pathExists (d.resolve root) with
    | true =>
      obtain ⟨ps, hps, -⟩ := sourcesOf_exists (s := s) hd hroot
      rw [hps]
      simp
    | false =>
      rw [sourcesOf_missing hd hroot, Except.error.injEq, eq_comm]
      simp
  rw [hmapped, mapM_eq_error_iff]
  simp only [hok, herror]

theorem mem_sources_iff (hd : d.Plain) {ps : List Path} (hok : s.sources d = .ok ps)
    (hroots : ∀ root ∈ s.sourceRoots, d.pathExists (d.resolve root) = true) :
    p ∈ ps ↔ ∃ root ∈ s.sourceRoots, Has d s (d.resolve root) p := by
  constructor
  · intro hp
    obtain ⟨root, hroot, found, hfound, hmem⟩ := (mem_sources hok).mp hp
    obtain ⟨found', hfound', hhas⟩ := sourcesOf_exists (s := s) hd (hroots root hroot)
    obtain rfl := Except.ok.inj (hfound.symm.trans hfound')
    exact ⟨root, hroot, (hhas p).mp hmem⟩
  · rintro ⟨root, hroot, h⟩
    obtain ⟨found, hfound, hhas⟩ := sourcesOf_exists (s := s) hd (hroots root hroot)
    exact (mem_sources hok).mpr ⟨root, hroot, found, hfound, (hhas p).mpr h⟩

theorem Has.anchor_eq {root : Path} (h : Has d s root p) (hroot : root.anchor = .root) :
    p.anchor = .root := by
  cases h with
  | self hp => rw [hp, hroot]
  | below _ hp => rw [hp]

theorem sources_strict {ps : List Path} (hok : s.sources d = .ok ps)
    (hanchor : ∀ p ∈ ps, p.anchor = .root) : ps.Pairwise fun p q => p.names < q.names := by
  obtain ⟨lists, -, rfl⟩ := sources_eq_ok_iff.mp hok
  apply strict_of_eraseDups (sortPaths_sorted _)
  intro p hp
  exact hanchor p (List.mem_eraseDups.mpr hp)

/-- A search fails at the first source root that is missing. If none is, it gives the files that
some source root has, each once, in strictly ascending order; however the source roots lie to each
other. -/
theorem sources_filtered (hd : d.Plain) (s : SourceTree) :
    (∀ e, s.sources d = .error e ↔ ∃ before root after, s.sourceRoots = before ++ root :: after ∧
      (∀ r ∈ before, d.pathExists (d.resolve r) = true) ∧
      d.pathExists (d.resolve root) = false ∧ e = .missingRoot root) ∧
    ((∀ root ∈ s.sourceRoots, d.pathExists (d.resolve root) = true) →
      ∃ ps, s.sources d = .ok ps ∧ (ps.Pairwise fun p q => p.names < q.names) ∧
        ∀ p, p ∈ ps ↔ ∃ root ∈ s.sourceRoots, Has d s (d.resolve root) p) := by
  refine ⟨fun e => sources_eq_error_iff hd, ?_⟩
  intro hroots
  cases hsources : s.sources d with
  | error e =>
    obtain ⟨before, root, after, hsplit, -, hmissing, -⟩ := (sources_eq_error_iff hd).mp hsources
    have hroot := hroots root (hsplit ▸ List.mem_append_right before List.mem_cons_self)
    rw [hmissing] at hroot
    cases hroot
  | ok ps =>
    have hmem (p : Path) : p ∈ ps ↔ ∃ root ∈ s.sourceRoots, Has d s (d.resolve root) p :=
      mem_sources_iff hd hsources hroots
    refine ⟨ps, rfl, ?_, hmem⟩
    apply sources_strict hsources
    intro p hp
    obtain ⟨root, -, h⟩ := (hmem p).mp hp
    apply h.anchor_eq
    rw [Disk.resolve_eq]

/-- A project with sources at its top, in a directory that is a source root too, and in two
directories that are not entered; a file in one of those is taken in by the last rule. -/
def nestedEntries : List (Text × Node) :=
  [("A.java", .file []), ("gen", .dir [("B.java", .file [])]), ("sub", .dir [("C.java", .file [])]),
    ("target", .dir [("D.java", .file [])])]

def nestedDisk : Disk := ⟨.dir nestedEntries, []⟩

def nestedTree : SourceTree :=
  ⟨Path.ofText "/", [Path.ofText "/", Path.ofText "/sub"], none,
    [⟨"gen", true, false, false⟩, ⟨"gen/B.java", false, false, true⟩]⟩

theorem nestedDisk_plain : nestedDisk.Plain := by
  apply Disk.plain_of_tidy
  have hfiles : ∀ name : Text, name ≠ Path.up → Node.Tidy (.dir [(name, .file [])]) := by
    intro name hname
    refine .dir (by simp [Table.keys]) (by simpa [Table.keys] using Ne.symm hname) ?_
    intro e he
    rw [List.mem_singleton.mp he]
    exact .file []
  refine .dir (by decide) (by decide) ?_
  intro e he
  simp only [nestedEntries, List.mem_cons, List.not_mem_nil, or_false] at he
  rcases he with rfl | rfl | rfl | rfl
  · exact .file []
  · exact hfiles _ (by decide)
  · exact hfiles _ (by decide)
  · exact hfiles _ (by decide)

theorem nestedTree_has : Has nestedDisk nestedTree (nestedDisk.resolve (Path.ofText "/"))
    (Path.ofText "/A.java") := by
  refine .below ["A.java"] rfl (List.cons_ne_nil _ _) [] rfl rfl ?_ (entered_singleton _ _ _)
  rw [← IgnoreRule.isIgnored_iff]
  decide +kernel

theorem nestedTree_not_has : ∀ root ∈ nestedTree.sourceRoots,
    ¬ Has nestedDisk nestedTree (nestedDisk.resolve root) (Path.ofText "/gen/B.java") := by
  have hskipped : Skipped nestedTree ⟨.root, ["gen"]⟩ := skips_iff.mp (by decide +kernel)
  intro root hroot h
  rcases List.mem_cons.mp hroot with rfl | hroot
  · cases h with
    | self hp => exact absurd hp (by decide)
    | below names hp hproper content hfile hsuffix htaken hentered =>
      obtain rfl : (["gen", "B.java"] : List Text) = names := congrArg Path.names hp
      exact hentered ["gen"] (by decide) (by decide) (by decide) hskipped
  · obtain rfl := List.mem_singleton.mp hroot
    cases h with
    | self hp => exact absurd hp (by decide)
    | below names hp =>
      have hfirst : (["gen", "B.java"] : List Text) = Text.ofString "sub" :: names :=
        congrArg Path.names hp
      exact absurd (List.cons.inj hfirst).1 (by decide)

/-- The rule that takes a file in again has no effect below a directory that is left out. -/
theorem sources_filtered_nested :
    nestedDisk.Plain ∧
      (∀ root ∈ nestedTree.sourceRoots, nestedDisk.pathExists (nestedDisk.resolve root) = true) ∧
      ∃ ps, nestedTree.sources nestedDisk = .ok ps ∧ Path.ofText "/A.java" ∈ ps ∧
        Path.ofText "/gen/B.java" ∉ ps := by
  have hroots : ∀ root ∈ nestedTree.sourceRoots,
      nestedDisk.pathExists (nestedDisk.resolve root) = true := by decide +kernel
  obtain ⟨ps, hps, -, hmem⟩ := (sources_filtered nestedDisk_plain nestedTree).2 hroots
  refine ⟨nestedDisk_plain, hroots, ps, hps, ?_, ?_⟩
  · exact (hmem _).mpr ⟨_, List.mem_cons_self, nestedTree_has⟩
  · intro hfound
    obtain ⟨root, hroot, h⟩ := (hmem _).mp hfound
    exact nestedTree_not_has root hroot h

end SourceTree

end LookupGen
