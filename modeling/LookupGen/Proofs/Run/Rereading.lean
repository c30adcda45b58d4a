import LookupGen.Proofs.Program.Constants
import LookupGen.Proofs.Run.Reading

/-!
# Reading again

What a run reads on a disk that has grown since another one has read it. The files are the same, and
so is what they hold. But a directory may stand where there was no file with settings or ignore
rules, and that cannot be read: a run that meets one breaks off.
-/

namespace LookupGen

open Disk (Grows)

namespace Path

variable {p : Path} {name : Text}

@[simp] theorem parent_child (p : Path) (name : Text) : (p.child name).parent = p := by
  rw [child, parent, List.dropLast_concat]

theorem child_parent (h : p.names.getLast? = some name) : p.parent.child name = p := by
  obtain ⟨above, hnames⟩ := List.getLast?_eq_some_iff.mp h
  obtain ⟨anchor, names⟩ := p
  simp only at hnames
  subst hnames
  rw [parent, List.dropLast_concat, child]

end Path

namespace Config

variable {d d' : Disk} {p root : Path} {c : Config}

theorem ofValue_root {v : Yaml.Value} (h : ofValue root v = .ok c) : c.root = root := by
  unfold ofValue at h
  split at h
  · obtain rfl := Except.ok.inj h
    rfl
  · obtain ⟨marker, -, h⟩ := bind_eq_ok.mp h
    obtain ⟨sourceRoots, -, h⟩ := bind_eq_ok.mp h
    obtain ⟨outputDir, -, h⟩ := bind_eq_ok.mp h
    obtain ⟨errorLog, -, h⟩ := bind_eq_ok.mp h
    obtain ⟨excludePaths, -, h⟩ := bind_eq_ok.mp h
    obtain rfl := Except.ok.inj h
    rfl
  · cases h

theorem ofText_root {t : Text} (h : ofText root t = .ok c) : c.root = root := by
  unfold ofText at h
  split at h
  · cases h
  · split at h
    · cases h
    · rename_i hvalue
      obtain rfl := Except.ok.inj h
      exact ofValue_root hvalue

theorem fileName_ne_up : fileName ≠ Path.up := by decide

theorem filePath_eq (hp : p.Settled) (d : Disk) :
    ∃ dir : Path, dir.Settled ∧ filePath d p = dir.child fileName := by
  unfold filePath
  split
  · exact ⟨p, hp, Disk.resolve_settled d (hp.child fileName_ne_up)⟩
  · split
    · rename_i hname
      refine ⟨p.parent, hp.parent, ?_⟩
      rw [Disk.resolve_settled d hp]
      symm
      apply Path.child_parent
      cases hlast : p.names.getLast? with
      | none =>
        rw [Path.name, hlast] at hname
        exact absurd hname (by decide)
      | some last =>
        rw [Path.name, hlast] at hname
        exact congrArg some hname
    · exact ⟨p.parent, hp.parent, Disk.resolve_settled d (hp.parent.child fileName_ne_up)⟩

/-- The settings of the project in a directory, given what stands at its settings file. -/
def atFile (dir : Path) (path : Text) : Option Node.Kind → Except Failure Config
  | none => .ok (default dir)
  | some .dir => .error (.unreadable (.disk ⟨.isDirectory, path⟩))
  | some (.file content) =>
    match Utf8.decode content with
    | .error e => .error (.unreadable (.encoding e))
    | .ok t => ofText dir (Text.unifyLineEnds t)

theorem atFile_root {path : Text} {k : Option Node.Kind} (h : atFile root path k = .ok c) :
    c.root = root := by
  unfold atFile at h
  split at h
  · obtain rfl := Except.ok.inj h
    rfl
  · cases h
  · split at h
    · cases h
    · exact ofText_root h

theorem load_eq (hd : d.Sound) {dir : Path} (hdir : dir.Settled)
    (hfile : filePath d p = dir.child fileName) :
    load d p = atFile dir (dir.child fileName).toText
      (d.root.kindAt? (dir.child fileName).names) := by
  have hsettled := hdir.child fileName_ne_up
  unfold load
  simp only
  rw [hfile, Path.parent_child, Disk.resolve_settled d hdir, Disk.pathExists_settled hd hsettled]
  cases hkind : d.root.kindAt? (dir.child fileName).names with
  | none => rfl
  | some k =>
    rw [Option.isSome_some, if_pos rfl]
    cases k with
    | dir =>
      rw [Disk.readText, Disk.read_settled_dir hd hsettled hkind]
      rfl
    | file content =>
      rw [Disk.readText_settled_file hd hsettled hkind, atFile]
      cases Utf8.decode content with
      | error e => rfl
      | ok t => rfl

end Config

namespace Run

variable {files : List Text → Prop} {d d' : Disk} {path : Text} {c : Config}

def settingsFile (c : Config) : Path := c.root.child Config.fileName

def ignoreFile (c : Config) : Path := c.root.child SourceTree.ignoreFileName

/-- Where no file was put there stands what has stood there, or a directory that is new. -/
theorem kindAt?_grows (h : Grows files d d') {names : List Text} (hnames : ¬ files names) :
    d'.root.kindAt? names = d.root.kindAt? names ∨
      (d.root.kindAt? names = none ∧ d'.root.kindAt? names = some .dir) := by
  cases hkind : d.root.kindAt? names with
  | some k =>
    left
    cases k with
    | dir => exact h.dir_of_dir hkind
    | file content => exact (h.kindAt?_file hnames).mpr hkind
  | none =>
    cases hkind' : d'.root.kindAt? names with
    | none => exact .inl rfl
    | some k =>
      right
      cases k with
      | dir => exact ⟨rfl, rfl⟩
      | file content =>
        rw [(h.kindAt?_file hnames).mp hkind'] at hkind
        cases hkind

theorem isDir_grows (hd : d.Sound) (h : Grows files d d') {p : Path} (hp : p.Settled)
    (hexists : d.pathExists p = true) : d'.pathExists p = true ∧ d'.isDir p = d.isDir p := by
  have hd' := h.sound hd
  rw [Disk.pathExists_settled hd hp] at hexists
  have hiff : d'.isDir p = d.isDir p ↔
      (d'.root.kindAt? p.names = some .dir ↔ d.root.kindAt? p.names = some .dir) := by
    rw [Bool.eq_iff_iff, Disk.isDir_settled hd hp, Disk.isDir_settled hd' hp]
  rw [Disk.pathExists_settled hd' hp, hiff]
  obtain ⟨k, hk⟩ := Option.isSome_iff_exists.mp hexists
  cases k with
  | dir =>
    have hdir := h.dir_of_dir hk
    exact ⟨Option.isSome_of_eq_some hdir, iff_of_true hdir hk⟩
  | file content =>
    obtain ⟨content', hfile⟩ := h.file_of_file ⟨content, hk⟩
    refine ⟨Option.isSome_of_eq_some hfile, iff_of_false ?_ ?_⟩
    · rw [hfile]
      simp
    · rw [hk]
      simp

theorem configAt_ok (hd : d.Sound) (hok : configAt d path = .ok c) :
    d.pathExists (d.resolve (Path.ofText path)) = true ∧ c.root.Settled ∧
      Config.filePath d (d.resolve (Path.ofText path)) = settingsFile c ∧
      Config.atFile c.root (settingsFile c).toText (d.root.kindAt? (settingsFile c).names) =
        .ok c := by
  obtain ⟨dir, hsettled, hpath⟩ :=
    Config.filePath_eq (Disk.settled_resolve d (Path.ofText path)) d
  unfold configAt at hok
  rw [Config.load_eq hd hsettled hpath] at hok
  split at hok
  · rename_i hexists
    have hload := mapError_eq_ok.mp hok
    obtain rfl := Config.atFile_root hload
    exact ⟨hexists, hsettled, hpath, hload⟩
  · cases hok

/-- Where settings were read, they are read again unless a directory stands at their file. -/
theorem configAt_grows (hd : d.Sound) (h : Grows files d d') (hok : configAt d path = .ok c)
    (hfile : ¬ files (settingsFile c).names) :
    (d'.root.kindAt? (settingsFile c).names ≠ some .dir → configAt d' path = .ok c) ∧
      (d'.root.kindAt? (settingsFile c).names = some .dir → ∃ e, configAt d' path = .error e) := by
  have hproject := Disk.settled_resolve d (Path.ofText path)
  obtain ⟨hexists, hsettled, hpath, hload⟩ := configAt_ok hd hok
  obtain ⟨hexists', hisDir⟩ := isDir_grows hd h hproject hexists
  have hsame : Config.filePath d' (d.resolve (Path.ofText path)) = settingsFile c := by
    rw [← hpath]
    unfold Config.filePath
    rw [hisDir, h.resolve_eq, h.resolve_eq, h.resolve_eq]
  unfold configAt
  rw [h.resolve_eq, hexists', if_pos rfl, Config.load_eq (h.sound hd) hsettled hsame]
  change (_ → (Config.atFile c.root (settingsFile c).toText
    (d'.root.kindAt? (settingsFile c).names)).mapError RunFailure.config = .ok c) ∧
      (_ → ∃ e, (Config.atFile c.root (settingsFile c).toText
        (d'.root.kindAt? (settingsFile c).names)).mapError RunFailure.config = .error e)
  constructor
  · intro hnot
    have hkind := (kindAt?_grows h hfile).resolve_right fun hdir => hnot hdir.2
    rw [hkind, hload]
    rfl
  · intro hdir
    rw [hdir]
    exact ⟨_, rfl⟩

def rulesAt (path : Text) : Option Node.Kind → Except SourceTree.Failure (List IgnoreRule)
  | none => .ok []
  | some .dir => .error (.ignoreFile (.disk ⟨.isDirectory, path⟩))
  | some (.file content) =>
    match Utf8.decode content with
    | .error e => .error (.ignoreFile (.encoding e))
    | .ok t => .ok (IgnoreRule.ofFile (Text.unifyLineEnds t))

theorem ignoreFileName_ne_up : SourceTree.ignoreFileName ≠ Path.up := by decide

theorem projectRules_eq (hd : d.Sound) (hroot : c.root.Settled) :
    SourceTree.projectRules d c.root =
      rulesAt (ignoreFile c).toText (d.root.kindAt? (ignoreFile c).names) := by
  have hsettled : (ignoreFile c).Settled := hroot.child ignoreFileName_ne_up
  have hfile : c.root.child SourceTree.ignoreFileName = ignoreFile c := rfl
  unfold SourceTree.projectRules
  simp only
  rw [hfile, Disk.pathExists_settled hd hsettled]
  cases hkind : d.root.kindAt? (ignoreFile c).names with
  | none => rfl
  | some k =>
    rw [Option.isSome_some, if_pos rfl]
    cases k with
    | dir =>
      rw [Disk.readText, Disk.read_settled_dir hd hsettled hkind]
      rfl
    | file content =>
      rw [Disk.readText_settled_file hd hsettled hkind, rulesAt]
      cases Utf8.decode content with
      | error e => rfl
      | ok t => rfl

/-- The source roots of a project neither are the directory for lookup classes nor lie below it. -/
def RootsApart (d : Disk) (c : Config) : Prop :=
  ∀ sourceRoot ∈ c.sourceRoots, ¬ d.placeOf c.outputDir <+: d.placeOf sourceRoot

/-- A place that no search for the sources of a project finds: it is that of no source by its name,
or it lies below the directory for lookup classes. -/
def Hidden (d : Disk) (c : Config) (names : List Text) : Prop :=
  ¬ SourceTree.IsSource names ∨ ∃ rest, names = d.placeOf c.outputDir ++ rest ∧ rest ≠ []

def treeAt (d : Disk) (c : Config) (rules : List IgnoreRule) : SourceTree :=
  ⟨d.resolve c.root, c.sourceRoots, some (d.resolve c.outputDir),
    rules ++ c.excludePaths.filterMap (IgnoreRule.ofText? false)⟩

theorem filesAt_ok_iff (hd : d.Sound) (hroot : c.root.Settled) {found : List Path} :
    filesAt d c = .ok found ↔
      ∃ rules, rulesAt (ignoreFile c).toText (d.root.kindAt? (ignoreFile c).names) = .ok rules ∧
        (treeAt d c rules).sources d = .ok found := by
  unfold filesAt SourceTree.ofConfig
  rw [projectRules_eq hd hroot, bind_eq_ok]
  simp only [mapError_eq_ok, map_eq_ok]
  constructor
  · rintro ⟨tree, ⟨rules, hrules, rfl⟩, hsources⟩
    exact ⟨rules, hrules, hsources⟩
  · rintro ⟨rules, hrules, hsources⟩
    exact ⟨treeAt d c rules, ⟨rules, hrules, rfl⟩, hsources⟩

theorem found_filesAt (hd : d.Plain) (hroot : c.root.Settled) {found : List Path}
    (hok : filesAt d c = .ok found) : ∀ p ∈ found, SourceTree.Found d p ∧
      (RootsApart d c → ∀ rest, p.names = d.placeOf c.outputDir ++ rest → rest = []) := by
  obtain ⟨rules, -, hsources⟩ := (filesAt_ok_iff hd.toSound hroot).mp hok
  intro p hp
  obtain ⟨hfound, hbelow⟩ := SourceTree.found_sources hd hsources p hp
  refine ⟨hfound, ?_⟩
  intro hapart rest hsplit
  have houtput : (treeAt d c rules).outputDir = some ⟨.root, d.placeOf c.outputDir⟩ :=
    congrArg some (Disk.resolve_eq d c.outputDir)
  apply hbelow ?_ _ rest houtput hsplit
  intro sourceRoot hmem out hout
  obtain rfl := (Path.mk.inj (Option.some.inj (houtput.symm.trans hout))).2
  exact hapart sourceRoot hmem

theorem steady_found {s : Session} (hd : s.disk.Plain) (hroot : c.root.Settled)
    (hlogs : ∀ names, Session.Logs none s names → ¬ SourceTree.IsSource names) {found : List Path}
    (hok : filesAt s.disk c = .ok found) : Steady s found := by
  intro file hfile
  obtain ⟨hfound, -⟩ := found_filesAt hd hroot hok file hfile
  obtain ⟨content, hkind⟩ := hfound.stands
  refine ⟨⟨content, Disk.read_settled_file hd.toSound hfound.settled hkind⟩, ?_⟩
  rw [Disk.placeOf_settled s.disk hfound.settled]
  exact fun hin => hlogs _ hin hfound.source

/-- Where the sources of a project were found, the same ones are found again unless a directory
stands at its ignore file. -/
theorem filesAt_grows (hd : d.Sound) (h : Grows files d d') (hroot : c.root.Settled)
    (hapart : RootsApart d c) (hfiles : ∀ names, files names → Hidden d c names)
    (hfile : ¬ files (ignoreFile c).names) {found : List Path} (hok : filesAt d c = .ok found) :
    (d'.root.kindAt? (ignoreFile c).names ≠ some .dir → filesAt d' c = .ok found) ∧
      (d'.root.kindAt? (ignoreFile c).names = some .dir → ∃ e, filesAt d' c = .error e) := by
  have hd' := h.sound hd
  obtain ⟨rules, hrules, hsources⟩ := (filesAt_ok_iff hd hroot).mp hok
  have houtput : (treeAt d c rules).outputDir = some ⟨.root, d.placeOf c.outputDir⟩ :=
    congrArg some (Disk.resolve_eq d c.outputDir)
  constructor
  · intro hnot
    have hkind : d'.root.kindAt? (ignoreFile c).names = d.root.kindAt? (ignoreFile c).names :=
      (kindAt?_grows h hfile).resolve_right fun hdir => hnot hdir.2
    have htree : treeAt d' c rules = treeAt d c rules := by
      unfold treeAt
      rw [h.resolve_eq, h.resolve_eq]
    apply (filesAt_ok_iff hd' hroot).mpr
    refine ⟨rules, by rw [hkind, hrules], ?_⟩
    rw [htree]
    apply SourceTree.sources_grows hd h ?_ ?_ hsources
    · intro names hnames
      rcases hfiles names hnames with hsource | ⟨rest, hsplit, hrest⟩
      · exact .inl hsource
      · exact .inr ⟨_, rest, hsplit, hrest, houtput⟩
    · intro sourceRoot hmem out hout
      obtain rfl := (Path.mk.inj (Option.some.inj (houtput.symm.trans hout))).2
      exact hapart sourceRoot hmem
  · intro hdir
    cases hagain : filesAt d' c with
    | error e => exact ⟨e, rfl⟩
    | ok found' =>
      obtain ⟨rules', hrules', -⟩ := (filesAt_ok_iff hd' hroot).mp hagain
      rw [hdir] at hrules'
      cases hrules'

/-- No directory stands at a file that a run may read where there was none. -/
def Rereadable (d : Disk) (source : ElementSource) (c : Config) : Prop :=
  d.root.kindAt? (settingsFile c).names ≠ some .dir ∧
    (source = .project → d.root.kindAt? (ignoreFile c).names ≠ some .dir)

/-- Places of files that a run does not read. -/
structure Unread (d : Disk) (c : Config) (files : List Text → Prop) : Prop where
  hidden : ∀ names, files names → Hidden d c names
  settings : ¬ files (settingsFile c).names
  rules : ¬ files (ignoreFile c).names

theorem settingsAt_ok_iff {outputDir : Option Path} :
    settingsAt d path outputDir = .ok c ↔ ∃ set, configAt d path = .ok set ∧
      c = { set with outputDir := d.resolve (outputDir.getD set.outputDir) } := by
  unfold settingsAt
  rw [bind_eq_ok]
  refine exists_congr fun set => and_congr_right fun _ => ?_
  constructor
  · exact fun h => (Except.ok.inj h).symm
  · rintro rfl
    rfl

theorem inputAt_ok_iff {source : ElementSource} {outputDir : Option Path}
    {elements : List Element} :
    inputAt d source path outputDir = .ok (c, elements) ↔
      settingsAt d path outputDir = .ok c ∧ elementsAt d source c = .ok elements := by
  unfold inputAt
  rw [bind_eq_ok]
  constructor
  · rintro ⟨c', hsettings, h⟩
    obtain ⟨elements', helements, h⟩ := bind_eq_ok.mp h
    obtain ⟨rfl, rfl⟩ := Prod.mk.inj (Except.ok.inj h)
    exact ⟨hsettings, helements⟩
  · rintro ⟨hsettings, helements⟩
    exact ⟨c, hsettings, bind_eq_ok.mpr ⟨elements, helements, rfl⟩⟩

theorem settingsAt_settled (hd : d.Sound) {outputDir : Option Path}
    (hok : settingsAt d path outputDir = .ok c) : c.root.Settled ∧ c.outputDir.Settled := by
  obtain ⟨set, hset, rfl⟩ := settingsAt_ok_iff.mp hok
  exact ⟨(configAt_ok hd hset).2.1, Disk.settled_resolve d _⟩

theorem settingsAt_grows (hd : d.Sound) (h : Grows files d d') {outputDir : Option Path}
    (hok : settingsAt d path outputDir = .ok c) (hfile : ¬ files (settingsFile c).names) :
    (d'.root.kindAt? (settingsFile c).names ≠ some .dir → settingsAt d' path outputDir = .ok c) ∧
      (d'.root.kindAt? (settingsFile c).names = some .dir →
        ∃ e, settingsAt d' path outputDir = .error e) := by
  obtain ⟨set, hset, rfl⟩ := settingsAt_ok_iff.mp hok
  obtain ⟨hagain, hfails⟩ := configAt_grows hd h hset hfile
  constructor
  · intro hnot
    exact settingsAt_ok_iff.mpr ⟨set, hagain hnot, by rw [h.resolve_eq]⟩
  · intro hdir
    obtain ⟨e, he⟩ := hfails hdir
    refine ⟨e, ?_⟩
    unfold settingsAt
    rw [he]
    rfl

theorem elements_grows (hd : d.Plain) (h : Grows files d d') (hroot : c.root.Settled)
    (hapart : RootsApart d c) (hunread : Unread d c files) {found : List Path}
    (hok : filesAt d c = .ok found) (known : List Name) :
    SourceReader.elements d' (SourceReader.ofFiles found known) =
      SourceReader.elements d (SourceReader.ofFiles found known) := by
  apply SourceReader.elements_congr
  intro file hfile
  obtain ⟨hfound, hbelow⟩ := found_filesAt hd hroot hok file hfile
  obtain ⟨content, hkind⟩ := hfound.stands
  have hread := Disk.read_settled_file hd.toSound hfound.settled hkind
  rw [hread]
  apply h.keeps.read_eq hd.toSound ?_ hread
  rw [Disk.placeOf_settled d hfound.settled]
  intro hin
  rcases hunread.hidden _ hin with hsource | ⟨rest, hsplit, hrest⟩
  · exact hsource hfound.source
  · exact hrest (hbelow hapart rest hsplit)

/-- Where a run has read its input, another one reads the same input, unless it meets a directory in
the place of a file; then it reads nothing. -/
theorem inputAt_grows (hd : d.Plain) (h : Grows files d d') {source : ElementSource}
    {outputDir : Option Path} {elements : List Element}
    (hok : inputAt d source path outputDir = .ok (c, elements)) (hapart : RootsApart d c)
    (hunread : Unread d c files) :
    (Rereadable d' source c → inputAt d' source path outputDir = .ok (c, elements)) ∧
      (¬ Rereadable d' source c → ∃ e, inputAt d' source path outputDir = .error e) := by
  obtain ⟨hsettings, helements⟩ := inputAt_ok_iff.mp hok
  have hroot := (settingsAt_settled hd.toSound hsettings).1
  obtain ⟨hagain, hfails⟩ := settingsAt_grows hd.toSound h hsettings hunread.settings
  constructor
  · rintro ⟨hnot, hrules⟩
    apply inputAt_ok_iff.mpr
    refine ⟨hagain hnot, ?_⟩
    cases source with
    | given elements => exact helements
    | project =>
      obtain ⟨found, hfound, hread⟩ := bind_eq_ok.mp helements
      have hsame := elements_grows hd h hroot hapart hunread hfound [c.marker]
      apply bind_eq_ok.mpr
      refine ⟨found, ?_, ?_⟩
      · exact (filesAt_grows hd.toSound h hroot hapart hunread.hidden hunread.rules hfound).1
          (hrules rfl)
      · rw [hsame]
        exact hread
  · intro hnot
    unfold inputAt
    by_cases hdir : d'.root.kindAt? (settingsFile c).names = some .dir
    · obtain ⟨e, he⟩ := hfails hdir
      refine ⟨e, ?_⟩
      rw [he]
      rfl
    · rw [hagain hdir]
      cases source with
      | given elements => exact absurd ⟨hdir, fun h => by cases h⟩ hnot
      | project =>
        obtain ⟨found, hfound, -⟩ := bind_eq_ok.mp helements
        have hrules : d'.root.kindAt? (ignoreFile c).names = some .dir := by
          by_contra hrules
          exact hnot ⟨hdir, fun _ => hrules⟩
        obtain ⟨e, he⟩ :=
          (filesAt_grows hd.toSound h hroot hapart hunread.hidden hunread.rules hfound).2 hrules
        refine ⟨e, ?_⟩
        change ((filesAt d' c >>= _) >>= _) = _
        rw [he]
        rfl

end Run

end LookupGen
