import LookupGen.Proofs.Generation.Repeat
import LookupGen.Proofs.Run.Rereading

/-!
# Runs that are repeated

A run that writes lookup classes, right after one that came to an outcome: it reads what that one
has read, and so it comes to the same outcome and changes no file but the logs. What it reads may
have changed in one way only: where the settings or the ignore rules of the project were missing,
the first run may have made a directory.
-/

namespace LookupGen

open Session (Grown Logs)
open Generation (Covers SameFiles)

namespace Run

variable {source : ElementSource} {r : Request} {s s' : Session} {c : Config} {o : Outcome}

/-- No log of a run is a source by its name, the settings file or the ignore file. -/
structure LogsApart (s : Session) (c : Config) : Prop where
  source : ∀ names, Logs (some c.errorLog) s names → ¬ SourceTree.IsSource names
  settings : ¬ Logs (some c.errorLog) s (settingsFile c).names
  rules : ¬ Logs (some c.errorLog) s (ignoreFile c).names

/-- The files that a run may write: the logs, and the files of valid names. -/
def Written (s : Session) (c : Config) (names : List Text) : Prop :=
  Logs (some c.errorLog) s names ∨
    ∃ name, Name.isValid name = true ∧ names = s.disk.placeOf (Sink.pathOf c.outputDir name)

theorem isSource_pathOf (hd : s.disk.Sound) {name : Name} (h : Name.isValid name = true)
    (root : Path) : SourceTree.IsSource (s.disk.placeOf (Sink.pathOf root name)) := by
  rw [Sink.placeOf_pathOf hd h, ← List.append_assoc]
  refine ⟨Sink.fileName name, List.getLast?_concat, ?_⟩
  rw [Text.endsWith, List.isSuffixOf_iff_suffix]
  exact Sink.fileSuffix_suffix name

theorem not_isSource_child (p : Path) {name : Text}
    (h : Text.endsWith name SourceTree.sourceSuffix = false) :
    ¬ SourceTree.IsSource (p.child name).names := by
  rintro ⟨last, hlast, hsuffix⟩
  rw [Path.child, List.getLast?_concat] at hlast
  obtain rfl := Option.some.inj hlast
  rw [h] at hsuffix
  cases hsuffix

theorem LogsApart.unread (h : LogsApart s c) (hd : s.disk.Sound) :
    Unread s.disk c (Written s c) where
  hidden := by
    rintro names (hlogs | ⟨name, hvalid, rfl⟩)
    · exact .inl (h.source names hlogs)
    · right
      refine ⟨_, Sink.placeOf_pathOf hd hvalid c.outputDir, ?_⟩
      exact List.append_ne_nil_of_right_ne_nil _ (List.cons_ne_nil _ _)
  settings := by
    rintro (hlogs | ⟨name, hvalid, hfile⟩)
    · exact h.settings hlogs
    · have hsource := isSource_pathOf hd hvalid c.outputDir
      rw [← hfile] at hsource
      exact not_isSource_child c.root (by decide) hsource
  rules := by
    rintro (hlogs | ⟨name, hvalid, hfile⟩)
    · exact h.rules hlogs
    · have hsource := isSource_pathOf hd hvalid c.outputDir
      rw [← hfile] at hsource
      exact not_isSource_child c.root (by decide) hsource

theorem covers_written (r : Request) (c : Config) (s : Session) :
    Covers (Written s c) (rules c).errorLog ⟨s, sinkOf r c, []⟩ where
  logs := fun names hnames => .inl hnames
  names := by
    intro root hroot name hvalid
    unfold sinkOf at hroot
    split at hroot
    · cases hroot
    · obtain rfl := Store.directory.inj hroot
      exact .inr ⟨name, hvalid, rfl⟩

theorem written_iff (hgrown : Grown (Logs none s) s s') (names : List Text) :
    Written s' c names ↔ Written s c names := by
  unfold Written
  simp only [hgrown.logs_iff, hgrown.grows.placeOf_eq]

theorem grown_written (hd : s.disk.Sound) (r : Request) (c : Config) (elements : List Element) :
    Grown (Written s c) s (written r c elements s).2.session :=
  Generation.grown_process hd (covers_written r c s) elements

/-- A run that came to an outcome, taken apart. -/
structure Ran (source : ElementSource) (r : Request) (s : Session) (c : Config)
    (elements : List Element) (result : Generation.Result) (s₁ : Session) : Prop where
  input : inputAt s.disk source r.path r.outputDir = .ok (c, elements)
  prepared : Grown (Logs none s) s s₁
  result : (written r c elements s₁).1 = .ok result

theorem ran_of_generate (hd : s.disk.Sound)
    (hsteady : source = .project → ∀ c files, settingsAt s.disk r.path r.outputDir = .ok c →
      filesAt s.disk c = .ok files → Steady s files)
    (hrun : (generate source r).run s = (.ok o, s')) :
    ∃ c elements result s₁, Ran source r s c elements result s₁ ∧
      o = outcomeOf r c result (written r c elements s₁).2 ∧
      s' = closing result (written r c elements s₁).2.session := by
  obtain ⟨s₁, hprepare, hgrown⟩ := tells_prepare hd source r.path r.outputDir hsteady
  rw [run_generate, hprepare] at hrun
  cases hinput : inputAt s.disk source r.path r.outputDir with
  | error e =>
    rw [hinput] at hrun
    cases hrun
  | ok input =>
    obtain ⟨c, elements⟩ := input
    rw [hinput] at hrun
    change finished r (c, elements) s₁ = (.ok o, s') at hrun
    cases hresult : (written r c elements s₁).1 with
    | error e =>
      have hfails := finished_of_error hresult
      rw [hrun] at hfails
      cases hfails
    | ok result =>
      rw [finished_of_ok hresult] at hrun
      obtain ⟨ho, rfl⟩ := Prod.mk.inj hrun
      exact ⟨c, elements, result, s₁, ⟨hinput, hgrown, hresult⟩, (Except.ok.inj ho).symm, rfl⟩

theorem Ran.grown {elements : List Element} {result : Generation.Result} {s₁ : Session}
    (h : Ran source r s c elements result s₁) (hd : s.disk.Sound) :
    Grown (Written s c) s (closing result (written r c elements s₁).2.session) := by
  have hd₁ := h.prepared.sound hd
  have hprepared := h.prepared.mono fun names hnames =>
    (Or.inl (Session.logs_of_none hnames) : Written s c names)
  have hwritten := (grown_written hd₁ r c elements).mono
    fun names hnames => (written_iff h.prepared names).mp hnames
  have hboth := hprepared.trans hwritten
  apply hboth.trans
  apply (grown_closing (hboth.sound hd) result).mono
  intro names hnames
  exact .inl (Session.logs_of_none ((hboth.logs_iff none names).mp hnames))

variable {elements : List Element} {result : Generation.Result} {s₁ : Session}

theorem filesAt_again (hd : s.disk.Plain) (hgrown : Grown (Written s c) s s')
    (hroot : c.root.Settled)
    (hapart : RootsApart s.disk c) (hlogs : LogsApart s c) {found found' : List Path}
    (hok : filesAt s.disk c = .ok found) (hagain : filesAt s'.disk c = .ok found') :
    found' = found := by
  have hunread := hlogs.unread hd.toSound
  obtain ⟨hsame, hfails⟩ :=
    filesAt_grows hd.toSound hgrown.grows hroot hapart hunread.hidden hunread.rules hok
  by_cases hdir : s'.disk.root.kindAt? (ignoreFile c).names = some .dir
  · obtain ⟨e, he⟩ := hfails hdir
    rw [hagain] at he
    cases he
  · exact Except.ok.inj (hagain.symm.trans (hsame hdir))

theorem steady_again (hd : s.disk.Plain) (hgrown : Grown (Written s c) s s')
    (hapart : RootsApart s.disk c) (hlogs : LogsApart s c)
    (hinput : inputAt s.disk source r.path r.outputDir = .ok (c, elements)) :
    source = .project → ∀ c' files, settingsAt s'.disk r.path r.outputDir = .ok c' →
      filesAt s'.disk c' = .ok files → Steady s' files := by
  rintro rfl c' files hsettings' hfiles
  have hunread := hlogs.unread hd.toSound
  obtain ⟨hsettings, helements⟩ := inputAt_ok_iff.mp hinput
  obtain ⟨found, hfound, -⟩ := bind_eq_ok.mp helements
  have hroot := (settingsAt_settled hd.toSound hsettings).1
  obtain ⟨hsame, hfails⟩ := settingsAt_grows hd.toSound hgrown.grows hsettings hunread.settings
  have hc : c' = c := by
    by_cases hdir : s'.disk.root.kindAt? (settingsFile c).names = some .dir
    · obtain ⟨e, he⟩ := hfails hdir
      rw [hsettings'] at he
      cases he
    · exact Except.ok.inj (hsettings'.symm.trans (hsame hdir))
  subst hc
  obtain rfl := filesAt_again hd hgrown hroot hapart hlogs hfound hfiles
  have hsteady := steady_found hd hroot
    (fun names hnames => hlogs.source names (Session.logs_of_none hnames)) hfound
  intro file hfile
  obtain ⟨hstands, hbelow⟩ := found_filesAt hd hroot hfound file hfile
  obtain ⟨⟨content, hread⟩, hnot⟩ := hsteady file hfile
  constructor
  · refine ⟨content, hgrown.grows.keeps.read_eq hd.toSound ?_ hread⟩
    rw [Disk.placeOf_settled s.disk hstands.settled]
    intro hin
    rcases hunread.hidden _ hin with hsource | ⟨rest, hsplit, hrest⟩
    · exact hsource hstands.source
    · exact hrest (hbelow hapart rest hsplit)
  · rw [hgrown.logs_iff, hgrown.grows.placeOf_eq]
    exact hnot

/-- A run is repeated: it comes to the same outcome and changes no file but the logs. -/
def Repeats (source : ElementSource) (r : Request) (c : Config) (o : Outcome) (s : Session) :
    Prop :=
  ∃ s', (generate source r).run s = (.ok o, s') ∧ SameFiles (some c.errorLog) s s'

/-- With the input of the first run the second one writes what is there already. -/
theorem finished_again (hd : s.disk.Sound) (hreal : r.dryRun = false)
    (hran : Ran source r s c elements result s₁)
    (hs' : s' = closing result (written r c elements s₁).2.session) {s₂ : Session}
    (hgrown : Grown (Logs none s') s' s₂) :
    ∃ s₃, finished r (c, elements) s₂ =
        (.ok (outcomeOf r c result (written r c elements s₁).2), s₃) ∧
      SameFiles (some c.errorLog) s' s₃ := by
  have hd₁ := hran.prepared.sound hd
  have hsink : sinkOf r c = Sink.below c.outputDir := by
    rw [sinkOf, hreal]
    rfl
  have hup : Path.up ∉ c.outputDir.names :=
    (settingsAt_settled hd (inputAt_ok_iff.mp hran.input).1).2.names
  have hwritten := grown_written hd₁ r c elements
  have hclosing := grown_closing (hwritten.sound hd₁) result
  rw [← hs'] at hclosing
  have hclosed := Generation.sameFiles_of_records (some c.errorLog) hclosing
  have hsame : SameFiles (some c.errorLog) (written r c elements s₁).2.session s₂ :=
    hclosed.trans (hclosing.logs_iff _) (Generation.sameFiles_of_records _ hgrown)
  obtain ⟨hresult, hdiagnostics, hfiles⟩ :
      (written r c elements s₂).1 = .ok result ∧
        (written r c elements s₂).2.diagnostics = (written r c elements s₁).2.diagnostics ∧
        SameFiles (some c.errorLog) (written r c elements s₁).2.session
          (written r c elements s₂).2.session := by
    refine @Generation.process_again (rules c) ⟨s₁, sinkOf r c, []⟩ ⟨s₂, sinkOf r c, []⟩ c.outputDir
      elements result hup hd₁ hsink hsink rfl ?_ ?_ ?_ ?_
    · exact hgrown.file.trans (hclosing.file.trans hwritten.file)
    · exact hran.result
    · exact (hclosing.grows.mono fun _ _ => trivial).trans (hgrown.grows.mono fun _ _ => trivial)
    · exact hsame
  have houtputs (s : Session) : (written r c elements s).2.sink.outputs = [] := by
    apply @Sink.outputs_of_directory _ c.outputDir
    apply (Generation.process_store elements _ c.outputDir).mpr
    rw [hsink]
    rfl
  have hd₂ := hgrown.sound (hclosing.sound (hwritten.sound hd₁))
  have hwritten₂ := grown_written hd₂ r c elements
  have hlast := grown_closing (hwritten₂.sound hd₂) result
  refine ⟨closing result (written r c elements s₂).2.session, ?_, ?_⟩
  · rw [finished_of_ok hresult]
    unfold outcomeOf
    rw [hdiagnostics, houtputs, houtputs]
  · have hlogs (names : List Text) :
        Logs (some c.errorLog) (written r c elements s₂).2.session names ↔
        Logs (some c.errorLog) s' names :=
      (hwritten₂.logs_iff _ names).trans (hgrown.logs_iff _ names)
    have hback : SameFiles (some c.errorLog) s' (written r c elements s₂).2.session := by
      apply (hclosed.symm (hclosing.logs_iff _)).trans
      · exact fun names => (hclosing.logs_iff _ names).symm
      · exact hfiles
    exact hback.trans hlogs (Generation.sameFiles_of_records _ hlast)

/-- A run that writes lookup classes and comes to an outcome is repeated just where no directory
stands at a file with settings or rules that it would read; otherwise the second run breaks off. The
sources are the same in both runs, and none of them lies below the directory for lookup classes. -/
theorem generate_repeats (hd : s.disk.Plain) (hreal : r.dryRun = false)
    (hapart : ∀ c, settingsAt s.disk r.path r.outputDir = .ok c →
      RootsApart s.disk c ∧ LogsApart s c)
    (hrun : (generate source r).run s = (.ok o, s')) :
    ∃ c, settingsAt s.disk r.path r.outputDir = .ok c ∧
      (Repeats source r c o s' ↔ Rereadable s'.disk source c) ∧
      (¬ Rereadable s'.disk source c → ∃ e s'', (generate source r).run s' = (.error e, s'')) ∧
      (source = .project → ∃ found, filesAt s.disk c = .ok found ∧
        (∀ found', filesAt s'.disk c = .ok found' → found' = found) ∧
        ∀ file ∈ found, ∀ rest, file.names = s.disk.placeOf c.outputDir ++ rest → rest = []) := by
  have hsteady : source = .project → ∀ c files, settingsAt s.disk r.path r.outputDir = .ok c →
      filesAt s.disk c = .ok files → Steady s files := by
    intro _ c files hsettings hfiles
    have hroot := (settingsAt_settled hd.toSound hsettings).1
    have hlogs := (hapart c hsettings).2
    exact steady_found hd hroot
      (fun names hnames => hlogs.source names (Session.logs_of_none hnames)) hfiles
  obtain ⟨c, elements, result, s₁, hran, rfl, hs'⟩ := ran_of_generate hd.toSound hsteady hrun
  obtain ⟨hsettings, helements⟩ := inputAt_ok_iff.mp hran.input
  obtain ⟨hroots, hlogs⟩ := hapart c hsettings
  have hgrown : Grown (Written s c) s s' := hs' ▸ hran.grown hd.toSound
  have hd' := hgrown.sound hd.toSound
  obtain ⟨hagain, hfails⟩ :=
    inputAt_grows hd hgrown.grows hran.input hroots (hlogs.unread hd.toSound)
  obtain ⟨s₂, hprepare, hgrown₂⟩ := tells_prepare hd' source r.path r.outputDir
    (steady_again hd hgrown hroots hlogs hran.input)
  have hbreaks : ¬ Rereadable s'.disk source c →
      ∃ e s'', (generate source r).run s' = (.error e, s'') := by
    intro hnot
    obtain ⟨e, he⟩ := hfails hnot
    refine ⟨e, s₂, ?_⟩
    rw [run_generate, hprepare, he, proceed]
  refine ⟨c, hsettings, ⟨?_, ?_⟩, hbreaks, ?_⟩
  · rintro ⟨s₃, hrepeated, -⟩
    by_contra hnot
    obtain ⟨e, s'', hbroken⟩ := hbreaks hnot
    rw [hrepeated] at hbroken
    cases hbroken
  · intro hreadable
    obtain ⟨s₃, hfinished, hsame⟩ := finished_again hd.toSound hreal hran hs' hgrown₂
    refine ⟨s₃, ?_, hsame⟩
    rw [run_generate, hprepare, hagain hreadable]
    exact hfinished
  · rintro rfl
    obtain ⟨found, hfound, -⟩ := bind_eq_ok.mp helements
    have hroot := (settingsAt_settled hd.toSound hsettings).1
    refine ⟨found, hfound, ?_, ?_⟩
    · exact fun found' hfound' => filesAt_again hd hgrown hroot hroots hlogs hfound hfound'
    · exact fun file hfile => (found_filesAt hd hroot hfound file hfile).2 hroots

def providerSource : Bytes := (Utf8.encode (Text.join [
  "@org.apache.camel.spi.annotations.ConstantProvider(\"q.B\") ",
  "class A \x7b static final String X = \"1\"; \x7d"])).toOption.getD []

def providerStart : Session :=
  ⟨⟨.dir [("A.java", .file providerSource)], []⟩, Journal.start .warning none []⟩

def providerRequest (outputDir : Option Path) : Request := ⟨".", outputDir, false⟩

def providerConfig (outputDir : Option Path) : Config :=
  { Config.default ⟨.root, []⟩ with
    outputDir := providerStart.disk.resolve
      (outputDir.getD (Config.default ⟨.root, []⟩).outputDir) }

theorem providerStart_plain : providerStart.disk.Plain :=
  Disk.plain_of_files (by decide) (by decide) (by decide)

theorem providerStart_settings (outputDir : Option Path) :
    settingsAt providerStart.disk "." outputDir = .ok (providerConfig outputDir) := rfl

theorem providerStart_apart (outputDir : Option Path)
    (houtput : providerStart.disk.placeOf (providerConfig outputDir).outputDir ≠ []) :
    RootsApart providerStart.disk (providerConfig outputDir) ∧
      LogsApart providerStart (providerConfig outputDir) := by
  have hlogs : ∀ names, Logs (some (providerConfig outputDir).errorLog) providerStart names →
      names = [Config.defaultErrorLog] := by
    rintro names ⟨path, hpath | hpath, rfl⟩
    · obtain rfl := Option.some.inj hpath
      rfl
    · cases hpath
  have hsettings : (settingsFile (Config.default ⟨.root, []⟩)).names ≠
      [Config.defaultErrorLog] := by
    decide
  have hrules : (ignoreFile (Config.default ⟨.root, []⟩)).names ≠ [Config.defaultErrorLog] := by
    decide
  constructor
  · intro sourceRoot hmem hprefix
    obtain rfl := List.mem_singleton.mp hmem
    exact houtput (List.prefix_nil.mp hprefix)
  · refine ⟨?_, fun h => hsettings (hlogs _ h), fun h => hrules (hlogs _ h)⟩
    intro names h
    obtain rfl := hlogs names h
    exact not_isSource_child ⟨.root, []⟩ (by decide)

def answers (p : Outcome → Session → Bool) : Except RunFailure Outcome × Session → Bool
  | (.ok o, s) => p o s
  | (.error _, _) => false

theorem answers_iff {p : Outcome → Session → Bool} {x : Except RunFailure Outcome × Session} :
    answers p x = true ↔ ∃ o s, x = (.ok o, s) ∧ p o s = true := by
  rcases x with ⟨e | o, s⟩
  · simp [answers]
  · simp [answers]

def fails (p : RunFailure → Bool) : Except RunFailure Outcome × Session → Bool
  | (.ok _, _) => false
  | (.error e, _) => p e

theorem fails_iff {p : RunFailure → Bool} {x : Except RunFailure Outcome × Session} :
    fails p x = true ↔ ∃ e s, x = (.error e, s) ∧ p e = true := by
  rcases x with ⟨e | o, s⟩
  · simp [fails]
  · simp [fails]

theorem generate_repeats_provider :
    providerStart.disk.Plain ∧ (providerRequest none).dryRun = false ∧
      (RootsApart providerStart.disk (providerConfig none) ∧
        LogsApart providerStart (providerConfig none)) ∧
      ∃ o s', (generate .project (providerRequest none)).run providerStart = (.ok o, s') ∧
        o.generated = [Text.ofString "q.B"] ∧
        Repeats .project (providerRequest none) (providerConfig none) o s' := by
  have hapart := providerStart_apart none (by decide)
  have hchecked : answers (fun o s' => decide (o.generated = [Text.ofString "q.B"] ∧
      s'.disk.root.kindAt? (settingsFile (providerConfig none)).names ≠ some .dir ∧
      s'.disk.root.kindAt? (ignoreFile (providerConfig none)).names ≠ some .dir))
      ((generate .project (providerRequest none)).run providerStart) = true := by decide +kernel
  obtain ⟨o, s', hrun, hanswer⟩ := answers_iff.mp hchecked
  obtain ⟨hgenerated, hsettings, hrules⟩ := of_decide_eq_true hanswer
  obtain ⟨c, hc, hrepeats, -⟩ := generate_repeats providerStart_plain rfl
    (by
      intro c hc
      obtain rfl := Except.ok.inj ((providerStart_settings none).symm.trans hc)
      exact hapart) hrun
  obtain rfl := Except.ok.inj ((providerStart_settings none).symm.trans hc)
  refine ⟨providerStart_plain, rfl, hapart, o, s', hrun, hgenerated, ?_⟩
  exact hrepeats.mpr ⟨hsettings, fun _ => hrules⟩

/-- The run is asked to write below the ignore file, which is not there. It makes a directory of
that name, which the second run cannot read. -/
theorem generate_not_repeated :
    ∃ outputDir, (RootsApart providerStart.disk (providerConfig outputDir) ∧
        LogsApart providerStart (providerConfig outputDir) ∧
        ¬ providerStart.disk.placeOf (providerConfig outputDir).outputDir <+:
          providerStart.disk.placeOf (providerConfig outputDir).errorLog) ∧
      ∃ o s' e s'', (generate .project (providerRequest outputDir)).run providerStart =
        (.ok o, s') ∧
        o.generated = [Text.ofString "q.B"] ∧
        (generate .project (providerRequest outputDir)).run s' = (.error e, s'') ∧
        e.message = Text.ofString "[Errno 21] Is a directory: '/.gitignore'" := by
  have hapart := providerStart_apart (some (.ofText ".gitignore")) (by decide)
  refine ⟨some (.ofText ".gitignore"), ⟨hapart.1, hapart.2, by decide⟩, ?_⟩
  have hchecked : answers (fun o s' => fails (fun e => decide (o.generated = [Text.ofString "q.B"] ∧
        e.message = Text.ofString "[Errno 21] Is a directory: '/.gitignore'"))
        ((generate .project (providerRequest (some (.ofText ".gitignore")))).run s'))
      ((generate .project (providerRequest (some (.ofText ".gitignore")))).run providerStart) =
        true := by decide +kernel
  obtain ⟨o, s', hrun, hanswer⟩ := answers_iff.mp hchecked
  obtain ⟨e, s'', hagain, hfault⟩ := fails_iff.mp hanswer
  obtain ⟨hgenerated, hmessage⟩ := of_decide_eq_true hfault
  exact ⟨o, s', e, s'', hrun, hgenerated, hagain, hmessage⟩

end Run

end LookupGen
